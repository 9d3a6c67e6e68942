import Clausification.Archive.Store

/-!
# Calls of the archive

What the archive is asked for, one call after the other: to convert a query and keep it, to list what
is kept, and to give a kept query back, as it was kept or converted again. Only a conversion writes
files.
-/

namespace Clausification.Archive

variable {β : Type}

inductive Call (β : Type) where
  | normalize (body : β) (timestamp : String)
  | list
  | get (hash : LooseText)
  | plain (hash format : LooseText)

inductive Reply where
  | answer (v : Json)
  | entries (es : List Entry)
  | query (v : Json)
  | content (mediaType body : String)

/-- The reply to a call, and the files after it. Which query a body stands for is decided in front of
the archive, by `intake`. -/
def handle (intake : β → Option Query) (env : Environment) (t : FileTree) :
    Call β → Except ArchiveError Reply × FileTree
  | .normalize body timestamp =>
    match intake body with
    | none => (.error .wrongKind, t)
    | some q =>
      let (r, t) := submit env timestamp q t
      (r.map .answer, t)
  | .list => ((listing env t).map .entries, t)
  | .get hash => ((get env hash t).map .query, t)
  | .plain hash format => ((plain env hash format t).map fun (m, body) => .content m body, t)

end Clausification.Archive
