import DeiChain.Aging
import DeiChain.Cancellation
import DeiChain.Chronology
import DeiChain.Cleanup
import DeiChain.Configuration
import DeiChain.Conservation
import DeiChain.Decoding
import DeiChain.Desertion
import DeiChain.Difficulty
import DeiChain.Dump
import DeiChain.Elasticity
import DeiChain.Framing
import DeiChain.Generator
import DeiChain.Identity
import DeiChain.Issuance
import DeiChain.Layout
import DeiChain.PoolLoops
import DeiChain.Posting
import DeiChain.Quiescence
import DeiChain.Reconciliation
import DeiChain.Recovery
import DeiChain.Search
import DeiChain.Serialization
import DeiChain.SharedMemory
import DeiChain.Shutdown
import DeiChain.Signals
import DeiChain.Spend
import DeiChain.Working
