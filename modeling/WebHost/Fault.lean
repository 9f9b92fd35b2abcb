import WebHost.Text.Basic

/-! Failures of input and output: a kind, on which programs decide, and a text for people. -/
namespace WebHost

inductive FaultKind
  | notFound | permissionDenied | alreadyExists | notADirectory | isADirectory
  | invalidInput | invalidData | invalidFilename | resourceBusy
  | interrupted | wouldBlock | timedOut | connectionReset | connectionRefused | brokenPipe
  | unexpectedEnd | addressInUse | addressNotAvailable | unknownHost | other
  deriving DecidableEq, Repr

structure IoError where
  kind : FaultKind
  text : Text
  deriving DecidableEq, Repr

namespace FaultKind

/-- What the operating system says about a failure, or the file layer above it. -/
def systemText : FaultKind → Text
  | .notFound => "No such file or directory (os error 2)".toList
  | .permissionDenied => "Permission denied (os error 13)".toList
  | .alreadyExists => "File exists (os error 17)".toList
  | .notADirectory => "Not a directory (os error 20)".toList
  | .isADirectory => "Is a directory (os error 21)".toList
  | .invalidInput => "file name contained an unexpected NUL byte".toList
  | .invalidData => "stream did not contain valid UTF-8".toList
  | .invalidFilename => "File name too long (os error 36)".toList
  | .resourceBusy => "Device or resource busy (os error 16)".toList
  | .interrupted => "Interrupted system call (os error 4)".toList
  | .wouldBlock => "Resource temporarily unavailable (os error 11)".toList
  | .timedOut => "Connection timed out (os error 110)".toList
  | .connectionReset => "Connection reset by peer (os error 104)".toList
  | .connectionRefused => "Connection refused (os error 111)".toList
  | .brokenPipe => "Broken pipe (os error 32)".toList
  | .unexpectedEnd => "unexpected end of file".toList
  | .addressInUse => "Address already in use (os error 98)".toList
  | .addressNotAvailable => "Cannot assign requested address (os error 99)".toList
  | .unknownHost => "failed to lookup address information: Name or service not known".toList
  | .other => "other error".toList

def error (k : FaultKind) : IoError := ⟨k, k.systemText⟩

end FaultKind
end WebHost
