-- SUMMARY: The build target and the third-party functions that the program calls, as parameters of the model.
import Procherd.Model

/-!
# Toolchain

What the program uses but does not contain: the platform it is built for, the
text of a path, and the functions of the `sha2`, `ulid`, `base64` and
`serde_json` crates. Where a result relies on one of them, the law it needs is a
class of its own next to the format it is about.
-/

namespace Procherd

inductive Platform where
  | unix
  | windows
deriving DecidableEq

class Toolchain where
  platform : Platform
  /-- `sha2::Sha256` over all bytes fed to the hasher. -/
  sha256 : Bytes → Bytes
  /-- `Path::display`. -/
  displayPath : PathBuf → String
  /-- `Debug` of `str`. -/
  debugStr : String → String
  /-- `str::parse::<Ulid>`. -/
  parseUlid : String → Option Nat
  /-- `Display` of `Ulid`. -/
  displayUlid : Nat → String
  /-- `Display` of the error of `base64` on a text it refuses. -/
  displayBase64Error : String → String
  /-- `serde_json::from_slice::<LogRecord>`. -/
  decodeLogRecord : Bytes → Except String LogRecord
  /-- `serde_json::from_reader` at type `StopRequest`. -/
  decodeStopRequest : Bytes → Except String StopRequest
  /-- How many bytes `serde_json::to_writer_pretty` and the newline after it take at
      type `RunState`. -/
  stateLength : RunState → Nat
  /-- The same at type `SupervisorSpec`. -/
  specLength : SupervisorSpec → Nat

/-- `hex::encode_lower`. -/
def encodeLower (bytes : Bytes) : String :=
  String.ofList (bytes.flatMap fun b => [Nat.digitChar (b.toNat / 16), Nat.digitChar (b.toNat % 16)])

end Procherd
