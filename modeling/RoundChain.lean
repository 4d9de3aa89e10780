import RoundChain.Main
import RoundChain.Stream.Restart
import RoundChain.Proofs.Admission
import RoundChain.Proofs.Awaiting
import RoundChain.Proofs.Backoff
import RoundChain.Proofs.Bootstrap
import RoundChain.Proofs.BoundaryProtocol
import RoundChain.Proofs.Chronology
import RoundChain.Proofs.Commitment
import RoundChain.Proofs.Counters
import RoundChain.Proofs.Digests
import RoundChain.Proofs.ElapsedTime
import RoundChain.Proofs.Interchange
import RoundChain.Proofs.JudgedProofs
import RoundChain.Proofs.LastNumber
import RoundChain.Proofs.Listings
import RoundChain.Proofs.Noninterference
import RoundChain.Proofs.Positions
import RoundChain.Proofs.Readiness
import RoundChain.Proofs.Refusals
import RoundChain.Proofs.Retries
import RoundChain.Proofs.RoundPartition
import RoundChain.Proofs.StartStates
import RoundChain.Proofs.StoredBytes
import RoundChain.Proofs.Succession
import RoundChain.Proofs.UnseenFiles
import RoundChain.Proofs.WellFormedChains
