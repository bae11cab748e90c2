import ConfigExpr.Command.Response

/-! The program: it reads its arguments and its input, and prints the response. -/
namespace ConfigExpr

/-- The system's words start with a capital letter, and its numbers are positive. -/
def ReadFailure.ofSystem (code : UInt32) (details : String) : ReadFailure :=
  .system details.capitalize (if code < 0x80000000 then code.toNat else (0 - code).toNat)

def ReadFailure.ofError : IO.Error → ReadFailure
  | .alreadyExists _ code details
  | .invalidArgument _ code details
  | .permissionDenied _ code details
  | .resourceExhausted _ code details
  | .inappropriateType _ code details
  | .noSuchThing _ code details => .ofSystem code details
  | .interrupted _ code details
  | .noFileOrDirectory _ code details => .ofSystem code details
  | .otherError code details
  | .resourceBusy code details
  | .resourceVanished code details
  | .unsupportedOperation code details
  | .hardwareFault code details
  | .unsatisfiedConstraints code details
  | .illegalOperation code details
  | .protocolError code details
  | .timeExpired code details => .ofSystem code details
  | .unexpectedEof => .system "unexpected end of file" 0
  | .userError details => .system details 0

def Input.read : Input → IO (Except ReadFailure ByteArray)
  | .inline _ => return .ok .empty
  | .standardInput => do
    try return .ok (← (← IO.getStdin).readBinToEnd)
    catch error => return .error (.ofError error)
  | .file path => do
    try return .ok (← IO.FS.readBinFile path)
    catch error => return .error (.ofError error)

end ConfigExpr

def main (arguments : List String) : IO UInt32 := do
  let response ←
    match ConfigExpr.Command.ofArguments arguments with
    | .error reason => pure reason.response
    | .ok command => pure (command.respond (← command.input.read))
  IO.print response.output
  IO.eprint response.errorOutput
  return response.exitCode.toUInt32
