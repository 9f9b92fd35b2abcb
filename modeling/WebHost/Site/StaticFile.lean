import WebHost.Disk.Basic
import WebHost.Http.Response
import WebHost.Text.Cut

/-! Answers that are whole files. A file is looked at before it is read, and may change between. -/
namespace WebHost.StaticFile
open Http

/-- The largest file that is served unless another limit is set. -/
def defaultLimit : Nat := 65536

/-- The content type by the extension, whatever its case. -/
def contentType (path : Text) : Text :=
  let extension := Text.folded ((FilePath.extension? path).getD [])
  if extension = "html".toList || extension = "htm".toList then "text/html".toList
  else if extension = "css".toList then "text/css".toList
  else if extension = "js".toList then "application/javascript".toList
  else if extension = "json".toList then "application/json".toList
  else if extension = "txt".toList then "text/plain".toList
  else "application/octet-stream".toList

/-- Two dots together anywhere, be they a step up or not. -/
def hasDotDot (path : Text) : Bool := (Text.cut? ['.', '.'] path).isSome

def badPath : Response := .text .badRequest "Bad Request".toList
def missing : Response := .text .notFound "File Not Found".toList
def unreadable : Response := .text .internalServerError "Internal Server Error".toList

/-- The answer for a path, from what the look at it has shown and what the reading has given. -/
def answer (limit : Nat) (path : Text) (seen : Except FaultKind Entry)
    (content : Except FaultKind Bytes) : Response :=
  if hasDotDot path then badPath
  else
    match seen with
    | .ok .directory | .ok .sink | .error .notFound => missing
    | .error _ => unreadable
    | .ok (.file held) =>
      if held.length > limit then unreadable
      else
        match content with
        | .error _ => unreadable
        | .ok bs =>
          if bs.length > limit then unreadable
          else .typed .ok (contentType path) bs

/-- The answer for a file that does not change meanwhile. -/
def serve (files : Files) (limit : Nat) (path : Text) : Response :=
  answer limit path (files path) (files.read path)

end WebHost.StaticFile
