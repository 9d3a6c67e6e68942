import Clausification.Archive.Calls
import Clausification.Proofs.Archive.Reading

/-!
# Histories of the archive

Whatever the archive is asked for, in whatever order, it keeps the queries that it has converted, each
with its last time: a call either converts a query and puts it in the place of its earlier copy, or
leaves the files alone. One kind of request does neither. A formula that is no text, because half of
a surrogate pair stands in it, is converted, but its file breaks off where the formula would begin,
and the request fails.
-/

namespace Clausification.Archive

section
variable {β : Type} (intake : β → Option Query)

/-- The query of a call that has been converted and kept, with its time. -/
def converted? : Call β × Except ArchiveError Reply → Option (Query × String)
  | (.normalize body timestamp, .ok _) => (intake body).map (·, timestamp)
  | _ => none

/-- The query of a call that failed when the query was written. -/
def brokenOff? : Call β × Except ArchiveError Reply → Option Query
  | (.normalize body _, .error .unencodable) => intake body
  | _ => none

inductive Outcome (env : Environment) (body : β) : Except ArchiveError Reply → Prop
  | converted {q : Query} {d : Derivation} (hq : intake body = some q)
      (htext : ∃ s, q.formula = .text s) (hrun : q.run env = .ok d) :
      Outcome env body (.ok (.answer (answer q.hash d)))
  | refused {q : Query} (hq : intake body = some q)
      (hreason : Text.isBlankText q.formula.legible ∨ ∃ e, q.run env = .error e) (text : String) :
      Outcome env body (.error (.rejected text))
  | torn {q : Query} (hq : intake body = some q) (htorn : q.formula.text? = none) :
      Outcome env body (.error .unencodable)
  | untaken (hq : intake body = none) : Outcome env body (.error .wrongKind)

end

/-- The times of the kept queries are the last ones that were noted. -/
def Recent (K : List Kept) (noted : List (Query × String)) : Prop :=
  ∀ q time, (∃ k ∈ K, k.query = q ∧ k.time = time) ↔ noted.reverse.lookup q = some time

theorem Recent.replace {K : List Kept} {noted : List (Query × String)} (h : Recent K noted)
    (k : Kept) : Recent (replace K k) (noted ++ [(k.query, k.time)]) := by
  intro q time
  rw [List.reverse_concat, List.lookup_cons]
  by_cases hq : q = k.query
  · subst hq
    rw [beq_self_eq_true]
    constructor
    · rintro ⟨k', hk', hquery, rfl⟩
      rcases mem_replace.mp hk' with rfl | ⟨hne, -⟩
      · rfl
      · exact absurd hquery hne
    · intro htime
      exact ⟨k, mem_replace.mpr (Or.inl rfl), rfl, Option.some.inj htime⟩
  · rw [beq_eq_false_iff_ne.mpr hq]
    refine Iff.trans ?_ (h q time)
    constructor
    · rintro ⟨k', hk', rfl, rfl⟩
      rcases mem_replace.mp hk' with rfl | ⟨-, hk'⟩
      · exact absurd rfl hq
      · exact ⟨k', hk', rfl, rfl⟩
    · rintro ⟨k', hk', rfl, rfl⟩
      exact ⟨k', mem_replace.mpr (Or.inr ⟨hq, hk'⟩), rfl, rfl⟩

section
variable {β : Type} {intake : β → Option Query} {body : β}

end

section
variable {env : Environment} {known : List Query} {K : List Kept} {torn : List Query} {t : FileTree}
  (hknown : ∀ q ∈ known, ∀ q' ∈ known, q.hash = q'.hash → q = q')

end

/-- Some calls have been answered: the queries that are kept, the torn ones and the files are what
has become of them. -/
structure Follows {β : Type} (intake : β → Option Query) (env : Environment) (known : List Query)
    (replies : List (Call β × Except ArchiveError Reply)) (K : List Kept) (torn : List Query)
    (t : FileTree) : Prop where
  keeps : Keeps env known K torn t
  outcome : ∀ body time r, (.normalize body time, r) ∈ replies → Outcome intake env body r
  recent : Recent K (replies.filterMap (converted? intake))
  broken : ∀ q, q ∈ torn ↔ q ∈ replies.filterMap (brokenOff? intake)

section
variable {β : Type} {intake : β → Option Query} {env : Environment} {known : List Query}
  {replies : List (Call β × Except ArchiveError Reply)} {K : List Kept} {torn : List Query}
  {t : FileTree}
  (hknown : ∀ q ∈ known, ∀ q' ∈ known, q.hash = q'.hash → q = q')

end

end Clausification.Archive
