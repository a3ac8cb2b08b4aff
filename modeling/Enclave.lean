import Enclave.Main
import Enclave.Session.Run
import Enclave.Session.Trial
import Enclave.Proofs.Script.Unsupported
import Enclave.Proofs.Script.Declared
import Enclave.Proofs.Session.Leaks
import Enclave.Proofs.Text.Bytes
import Enclave.Proofs.Text.KeyList
import Enclave.Proofs.Act.Gains
import Enclave.Proofs.Act.Turns
import Enclave.Proofs.Boundary.Given
import Enclave.Proofs.Host.Reads
import Enclave.Proofs.Boundary.Stored
import Enclave.Proofs.Host.Echo
import Enclave.Proofs.Host.Keys
import Enclave.Proofs.Host.Crossing
import Enclave.Proofs.Boundary.Failure
import Enclave.Proofs.Host.Failure
import Enclave.Proofs.Host.Calls
import Enclave.Proofs.Host.Answers
import Enclave.Proofs.Host.Construction
import Enclave.Proofs.Host.Invocation
import Enclave.Proofs.Shared.History
import Enclave.Proofs.World.Kept
import Enclave.Proofs.Script.Access
import Enclave.Proofs.Shared.Arrays
import Enclave.Proofs.Shared.Objects
import Enclave.Proofs.Session.Accesses
import Enclave.Proofs.Text.Truncated
import Enclave.Proofs.Text.Unpaired
import Enclave.Proofs.Session.Errors
import Enclave.Proofs.Session.Bindings
import Enclave.Proofs.Session.Trial
import Enclave.Proofs.Number.Whole
import Enclave.Proofs.Script.Spellings
import Enclave.Proofs.Script.Displayed
import Enclave.Proofs.Host.Equality
import Enclave.Proofs.Program.Interleavings
import Enclave.Proofs.Text.Utf8
import Enclave.Proofs.Host.Carried
