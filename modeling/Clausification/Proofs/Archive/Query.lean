import Clausification.Archive.Store
import Clausification.Proofs.Derivation.Fault
import Clausification.Proofs.FileTree
import Clausification.Proofs.Json.Reading
import Clausification.Proofs.Reader.Names

/-!
# Queries that are kept

The name of a query makes the names of two files. What is written into the first is read back as the
query, but for an empty name of a notation, which counts as none, and so the query is converted again
with the same result.
-/

namespace Clausification

theorem Text.exists_of_mem_hexPadded {width n : Nat} {c : Char} (hc : c ∈ Text.hexPadded width n) :
    ∃ k < 16, c = Text.hexDigit k := by
  induction width generalizing n with
  | zero => exact nomatch hc
  | succ width ih =>
    rcases List.mem_append.mp hc with hc | hc
    · exact ih hc
    · exact ⟨n % 16, Nat.mod_lt n (by omega), List.mem_singleton.mp hc⟩

theorem Digest.length_hex (s : String) : (Digest.hex s).toList.length = 64 := by
  simp [Digest.hex, Digest.State.words]

theorem Step.isWhole_toJson (s : Step) : s.toJson.IsWhole := by
  apply Json.isWhole_object
  exact .cons (Json.isWhole_string _) <| .cons (Json.isWhole_string _) <|
    .cons (Json.isWhole_string _) <| .cons (Json.isWhole_bool _) .nil

theorem Warning.isWhole_toJson (w : Warning) : w.toJson.IsWhole := by
  apply Json.isWhole_object
  exact .cons (Json.isWhole_string _) <| .cons (Json.isWhole_int _) <|
    .cons (Json.isWhole_string _) .nil

theorem LiteralEntry.isWhole_toJson (l : LiteralEntry) : l.toJson.IsWhole := by
  apply Json.isWhole_object
  exact .cons (Json.isWhole_bool _) <| .cons (Json.isWhole_string _) .nil

theorem ClauseEntry.isWhole_toJson (c : ClauseEntry) : c.toJson.IsWhole := by
  apply Json.isWhole_object
  exact .cons (Json.isWhole_int _) <|
    .cons (Json.isWhole_arrayMap LiteralEntry.isWhole_toJson _) <|
    .cons (Json.isWhole_string _) <| .cons (Json.isWhole_bool _) <|
    .cons (Json.isWhole_string _) .nil

/-- The record of a conversion can always be written. -/
theorem Derivation.isWhole_toJson (d : Derivation) : d.toJson.IsWhole := by
  apply Json.isWhole_object
  exact .cons (Json.isWhole_string _) <| .cons (Json.isWhole_string _) <|
    .cons (Json.isWhole_string _) <| .cons (Json.isWhole_bool _) <|
    .cons (Json.isWhole_arrayMap Step.isWhole_toJson _) <|
    .cons (Json.isWhole_arrayMap Warning.isWhole_toJson _) <|
    .cons (Json.isWhole_arrayMap ClauseEntry.isWhole_toJson _) <|
    .cons (Json.isWhole_ofOption Json.isWhole_bool _) <|
    .cons (Json.isWhole_arrayMap Json.isWhole_string _) <|
    .cons (Json.isWhole_string _) .nil

/-- Of the passes that the program has itself, all results can be written. -/
theorem exists_derive {o : Options} (hpasses : o.passes = {}) (hchecks : o.checks = {})
    (text : String) : ∃ d log, derive o text = .ok (d, log) := by
  obtain ⟨skips, hskips⟩ : ∃ skips, (Formula.parseWithSkips o.strict text).2 = skips := ⟨_, rfl⟩
  cases hparse : Formula.parse o.strict text with
  | error e =>
    obtain ⟨log, hderive⟩ := derive_of_parse_error (Prod.ext hparse hskips)
    exact ⟨_, log, hderive⟩
  | ok f =>
    have hf := Formula.isPlain_of_parse hparse
    exact ⟨_, _, derive_eq hpasses hchecks (Prod.ext hparse hskips) hf⟩

namespace Archive

namespace Query
variable (q : Query)

theorem length_hash : q.hash.toList.length = 12 := by
  simp [hash, Digest.length_hex]

theorem exists_of_mem_hash {c : Char} (hc : c ∈ q.hash.toList) : ∃ k < 16, c = Text.hexDigit k := by
  rw [hash, String.toList_ofList] at hc
  have hmem := List.mem_of_mem_take hc
  rw [Digest.hex, String.toList_ofList, List.mem_flatMap] at hmem
  obtain ⟨w, -, hw⟩ := hmem
  exact Text.exists_of_mem_hexPadded hw

theorem not_mem_hash {c : Char} (hc : ∀ k < 16, c ≠ Text.hexDigit k) : c ∉ q.hash.toList := by
  intro h
  obtain ⟨k, hk, heq⟩ := q.exists_of_mem_hash h
  exact hc k hk heq

theorem isComponent_fileName : IsComponent (fileName q.hash) := by
  have hchars : (fileName q.hash).toList = q.hash.toList ++ ".json".toList := String.toList_append
  have hlength : (fileName q.hash).toList.length = 17 := by
    rw [hchars, List.length_append, length_hash]
    rfl
  have hne (s : String) (hs : s.toList.length < 17) : fileName q.hash ≠ s := by
    rintro rfl
    omega
  constructor
  · rw [hchars, List.mem_append]
    exact not_or.mpr ⟨q.not_mem_hash (by decide), by decide⟩
  · rw [hchars, List.mem_append]
    exact not_or.mpr ⟨q.not_mem_hash (by decide), by decide⟩
  · exact hne "" (by decide)
  · exact hne "." (by decide)
  · exact hne ".." (by decide)
  · have := utf8ByteSize_le (fileName q.hash)
    rw [hlength] at this
    exact this.trans (by decide)

theorem not_startsWith_hash : q.hash.startsWith "/" = false := by
  rw [String.startsWith_string_eq_false_iff]
  intro h
  exact q.not_mem_hash (by decide) (h.subset (List.mem_singleton_self '/'))

/-- The query with no notation instead of one without a name. -/
def named (q : Query) : Query := { q with markup := q.markup.filter (· ≠ .text "") }

/-- The query asks for a notation that there is, or for none. -/
def IsServed (q : Query) : Prop := ∀ m ∈ q.named.markup, ∃ n : Notation, m = .text n.name

theorem markup_cases (q : Query) : q.markup = some (.text "") ∧ q.named = { q with markup := none } ∨
    q.markup ≠ some (.text "") ∧ q.named = q := by
  obtain ⟨formula, markup, strict, check⟩ := q
  cases markup with
  | none => exact Or.inr ⟨nofun, rfl⟩
  | some m =>
    by_cases hm : m = .text ""
    · subst hm
      exact Or.inl ⟨rfl, rfl⟩
    · exact Or.inr ⟨by simpa using hm, by simp [named, hm]⟩

theorem IsServed.exists_text {q : Query} (hq : q.IsServed) : ∀ m ∈ q.markup, ∃ s, m = .text s := by
  intro m hm
  rcases q.markup_cases with ⟨hempty, -⟩ | ⟨-, hnamed⟩
  · rw [hempty] at hm
    exact ⟨"", (Option.some.inj hm).symm⟩
  · obtain ⟨n, hn⟩ := hq m (by rw [hnamed]; exact hm)
    exact ⟨n.name, hn⟩

theorem IsServed.reads_saved {q : Query} (hq : q.IsServed) {s : String} (hs : q.formula = .text s)
    (timestamp : String) : Json.Reads (q.saved timestamp) := by
  have hmarkup : Json.Reads (.ofOption .loose q.markup) := by
    refine Json.Reads.ofOption fun m hm => ?_
    obtain ⟨x, rfl⟩ := hq.exists_text m hm
    exact Json.Reads.string x
  have hswitch (b : Option Bool) : Json.Reads (.ofOption .bool b) :=
    Json.Reads.ofOption fun b _ => Json.Reads.bool b
  apply Json.Reads.object
  · exact .cons (hs ▸ Json.Reads.string s) <| .cons hmarkup <| .cons (hswitch _) <|
      .cons (hswitch _) <| .cons (Json.Reads.string _) .nil
  · have hnames : (["formula", "notation", "strict_lexing", "check_invariants",
        "timestamp"].map LooseText.text).Nodup := by decide
    exact hnames

section
variable {env : Environment} {s : Settings} {r : Request} {e : UnknownNotation}

theorem run_of_request (hs : Settings.ofEnvironment env = .ok s) (hr : q.request = .ok r) :
    q.run env =
    match r.run s id with
    | .ok (d, _) => .ok d
    | .error (.unknown e) => .error (.unknownNotation e)
    | .error (.unwritable o) => .error (.unwritable o) := by
  rw [run, hs, hr]
  rfl

theorem run_of_request_error (hs : Settings.ofEnvironment env = .ok s)
    (hr : q.request = .error e) : q.run env = .error (.unknownNotation e) := by
  rw [run, hs, hr]
  rfl

theorem run_of_settings_error (hs : Settings.ofEnvironment env = .error e) :
    q.run env = .error (.unknownNotation e) := by
  rw [run, hs]
  rfl

end

theorem exists_settings_of_run {q : Query} {env : Environment} {d : Derivation}
    (h : q.run env = .ok d) : ∃ s, Settings.ofEnvironment env = .ok s := by
  cases hs : Settings.ofEnvironment env with
  | error e =>
    rw [q.run_of_settings_error hs] at h
    cases h
  | ok s => exact ⟨s, rfl⟩

theorem isServed_of_request {s : Settings} {r : Request} {n : Notation} (hr : q.request = .ok r)
    (h : Notation.request (r.markupName s) = .ok n) : q.IsServed := by
  intro x hx
  rcases q.markup_cases with ⟨-, hnamed⟩ | ⟨hne, hnamed⟩
  · rw [hnamed] at hx
    cases hx
  · rw [hnamed] at hx
    have hmarkup : q.markup = some x := hx
    rw [request, markupName, hmarkup] at hr
    cases x with
    | torn before half behind => cases hr
    | text x =>
      have hx : x ≠ "" := by
        rintro rfl
        exact hne hmarkup
      have hfilter : (some x).filter (· ≠ "") = some x := by simp [hx]
      cases hr
      rw [Request.markupName, hfilter, Option.getD_some, Notation.request] at h
      cases hfind : Notation.ofName? x with
      | none =>
        rw [hfind] at h
        cases h
      | some n' =>
        have hfound : n'.name = x := by simpa using List.find?_some hfind
        exact ⟨n', by rw [hfound]⟩

/-- A query is converted, or a name in it or in the environment is that of no notation. -/
theorem run_cases (env : Environment) :
    (∃ d, q.run env = .ok d ∧ q.IsServed) ∨ ∃ e, q.run env = .error (.unknownNotation e) := by
  cases hs : Settings.ofEnvironment env with
  | error e => exact Or.inr ⟨e, q.run_of_settings_error hs⟩
  | ok s =>
    cases hr : q.request with
    | error e => exact Or.inr ⟨e, q.run_of_request_error hs hr⟩
    | ok r =>
      cases hn : Notation.request (r.markupName s) with
      | error e =>
        have hrequest : r.run s id = .error (.unknown e) := by
          rw [Request.run, Request.options, hn]
          rfl
        exact Or.inr ⟨e, by rw [q.run_of_request hs hr, hrequest]⟩
      | ok n =>
        let o : Options :=
          { markup := n, strict := r.strict.getD s.strict, check := r.check.getD s.check }
        obtain ⟨d, log, hderive⟩ := @exists_derive o rfl rfl r.text
        have hrequest : r.run s id = (derive o r.text).mapError .unwritable := by
          rw [Request.run, Request.options, hn]
          rfl
        refine Or.inl ⟨d, ?_, q.isServed_of_request hr hn⟩
        rw [q.run_of_request hs hr, hrequest, hderive]
        rfl

theorem isServed_of_run {q : Query} {env : Environment} {d : Derivation}
    (h : q.run env = .ok d) : q.IsServed := by
  rcases q.run_cases env with ⟨-, -, hserved⟩ | ⟨e, he⟩
  · exact hserved
  · rw [h] at he
    cases he

end Query

end Archive

end Clausification
