import Mathlib.Data.List.Basic
import Clausification.Json.Reader
import Clausification.Proofs.Json.Writing
import Clausification.Proofs.Text

/-!
# What is written is read

Texts, truth values and objects of them come back from their indented form. A text may hold
anything: whatever cannot stand for itself is escaped, and escapes are undone one by one.
-/

namespace Clausification.Json

namespace Reader

theorem hexValue?_hexDigit {n : Nat} (hn : n < 16) : hexValue? (Text.hexDigit n) = some n := by
  have hdigits : ∀ n < 16, hexValue? (Text.hexDigit n) = some n := by decide
  exact hdigits n hn

theorem unit?_hexPadded {n : Nat} (hn : n < 0x10000) (cs : List Char) :
    unit? (Text.hexPadded 4 n ++ cs) = some (n, cs) := by
  have hvalue (k : Nat) : hexValue? (Text.hexDigit (k % 16)) = some (k % 16) :=
    hexValue?_hexDigit (Nat.mod_lt k (by omega))
  have hsum : ((n / 16 / 16 / 16 % 16 * 16 + n / 16 / 16 % 16) * 16 + n / 16 % 16) * 16 +
      n % 16 = n := by omega
  simp [Text.hexPadded, unit?, hvalue, hsum]

/-- The characters that have an escape of their own. -/
def escaped : List Char := ['"', '\\', '\n', '\r', '\t', '\x08', '\x0c']

theorem shortEscape_of_not_mem {c : Char} (hc : c ∉ escaped) : shortEscape c = none := by
  simp only [escaped, List.mem_cons, List.not_mem_nil, or_false, not_or] at hc
  obtain ⟨h1, h2, h3, h4, h5, h6, h7⟩ := hc
  simp only [shortEscape, h1, h2, h3, h4, h5, h6, h7, or_self, if_false]

theorem length_plainChar_pos (c : Char) : 0 < (plainChar c).length := by
  unfold plainChar shortEscape unitEscape
  split_ifs <;> simp

/-- A character comes back from the form that it has in a string. -/
theorem stringFrom_plainChar (fuel : Nat) (done : List Point) (c : Char) (cs : List Char) :
    stringFrom (fuel + 1) done (plainChar c ++ cs) = stringFrom fuel (.char c :: done) cs := by
  by_cases hc : c ∈ escaped
  · have hshort : ∀ c ∈ escaped, stringFrom (fuel + 1) done (plainChar c ++ cs) =
        stringFrom fuel (.char c :: done) cs := by
      simp only [escaped, List.forall_mem_cons, List.not_mem_nil, false_implies, implies_true,
        and_true]
      exact ⟨rfl, rfl, rfl, rfl, rfl, rfl, rfl⟩
    exact hshort c hc
  · by_cases hcontrol : c.toNat < 0x20
    · have hplain : plainChar c = unitEscape c.toNat := by
        rw [plainChar, shortEscape_of_not_mem hc]
        exact if_pos hcontrol
      have hunit := unit?_hexPadded (n := c.toNat) (by omega) cs
      have hchar : unitPoint c.toNat cs = (.char c, cs) := by
        rw [unitPoint.eq_def, if_neg (by omega), if_neg (by omega), Char.ofNat_toNat]
      rw [hplain, unitEscape, List.cons_append, List.cons_append, stringFrom, hunit]
      simp only [hchar]
    · have hplain : plainChar c = [c] := by
        rw [plainChar, shortEscape_of_not_mem hc]
        exact if_neg hcontrol
      have hquote : c ≠ '"' := fun h => hc (by simp [h, escaped])
      have hbackslash : c ≠ '\\' := fun h => hc (by simp [h, escaped])
      rw [hplain, List.singleton_append, stringFrom.eq_6 _ _ _ _ hquote (fun _ h _ => hbackslash h)
        (fun _ _ h _ => hbackslash h), if_neg (not_or.mpr ⟨hcontrol, hbackslash⟩)]

theorem stringFrom_flatMap {fuel : Nat} (done : List Point) (cs rest : List Char)
    (hfuel : (cs.flatMap plainChar).length < fuel) :
    stringFrom fuel done (cs.flatMap plainChar ++ '"' :: rest) =
      some (.ofPoints (done.reverse ++ cs.map .char), rest) := by
  induction cs generalizing fuel done with
  | nil =>
    cases fuel with
    | zero => exact absurd hfuel (Nat.not_lt_zero _)
    | succ fuel => simp [stringFrom]
  | cons c cs ih =>
    rw [List.flatMap_cons, List.length_append] at hfuel
    have hpos := length_plainChar_pos c
    obtain ⟨fuel, rfl⟩ : ∃ n, fuel = n + 1 := ⟨fuel - 1, by omega⟩
    rw [List.flatMap_cons, List.append_assoc, stringFrom_plainChar, ih (.char c :: done) (by omega)]
    simp

theorem exists_toList_quote (s : String) (rest : List Char) :
    ∃ cs, (quote s).toList ++ rest = '"' :: cs ∧
      stringFrom (cs.length + 1) [] cs = some (.text s, rest) := by
  refine ⟨s.toList.flatMap plainChar ++ '"' :: rest, ?_, ?_⟩
  · simp [quote, quotedWith]
  · rw [stringFrom_flatMap]
    · rw [List.reverse_nil, List.nil_append, LooseText.ofPoints_chars, String.ofList_toList]
    · simp only [List.length_append, List.length_cons]
      omega

theorem skipSpaces_cons {c : Char} (hc : isSpace c = false) (cs : List Char) :
    skipSpaces (c :: cs) = c :: cs := by
  rw [skipSpaces, List.dropWhile_cons_of_neg (by simp [hc])]

theorem skipSpaces_indentation (depth : Nat) (cs : List Char) :
    skipSpaces ((indentation depth).toList ++ cs) = skipSpaces cs := by
  refine List.dropWhile_append_of_pos fun c hc => ?_
  simp only [indentation, String.toList_append, String.toList_ofList, List.mem_append,
    List.mem_replicate] at hc
  rcases hc with hc | ⟨-, rfl⟩
  · rw [List.mem_singleton.mp hc]
    rfl
  · rfl

end Reader

open Reader in
/-- A value comes back from its indented form, whatever stands behind it. -/
structure Reads (v : Json) : Prop where
  whole : v.IsWhole
  head : ∀ depth, ∃ c cs, (writtenAt depth v).text.toList = c :: cs ∧ isSpace c = false
  read : ∀ depth fuel rest, (writtenAt depth v).text.toList.length ≤ fuel →
    value fuel ((writtenAt depth v).text.toList ++ rest) = .ok (v, rest)

namespace Reads
open Reader

theorem of_succ {v : Json} (whole : v.IsWhole)
    (head : ∀ depth, ∃ c cs, (writtenAt depth v).text.toList = c :: cs ∧ isSpace c = false)
    (read : ∀ depth fuel rest, (writtenAt depth v).text.toList.length ≤ fuel + 1 →
      value (fuel + 1) ((writtenAt depth v).text.toList ++ rest) = .ok (v, rest)) : Reads v where
  whole := whole
  head := head
  read depth fuel rest hfuel := by
    obtain ⟨c, cs, hcs, -⟩ := head depth
    have hlen := congrArg List.length hcs
    rw [List.length_cons] at hlen
    obtain ⟨fuel, rfl⟩ : ∃ n, fuel = n + 1 := ⟨fuel - 1, by omega⟩
    exact read depth fuel rest hfuel

theorem word {v : Json} {w : String} (hwritten : ∀ depth, writtenAt depth v = w)
    (hhead : ∃ c cs, w.toList = c :: cs ∧ isSpace c = false)
    (hread : ∀ fuel rest, value (fuel + 1) (w.toList ++ rest) = .ok (v, rest)) : Reads v := by
  apply of_succ
  · intro depth
    rw [hwritten]
  · intro depth
    rw [hwritten]
    exact hhead
  · intro depth fuel rest _
    rw [hwritten]
    exact hread fuel rest

theorem null : Reads null := by
  apply word (w := "null") (fun depth => by rw [writtenAt]) ⟨_, _, rfl, rfl⟩
  intro fuel rest
  rfl

theorem bool (b : Bool) : Reads (bool b) := by
  cases b with
  | false =>
    apply word (w := "false") (fun depth => by rw [writtenAt]) ⟨_, _, rfl, rfl⟩
    intro fuel rest
    rfl
  | true =>
    apply word (w := "true") (fun depth => by rw [writtenAt]) ⟨_, _, rfl, rfl⟩
    intro fuel rest
    rfl

theorem string (s : String) : Reads (string s) := by
  have hwritten (depth : Nat) : writtenAt depth (.string s) = quote s := by rw [writtenAt]; rfl
  refine of_succ (fun depth => by rw [hwritten])
    (fun depth => ⟨'"', s.toList.flatMap plainChar ++ ['"'], ?_, rfl⟩) fun depth fuel rest _ => ?_
  · simp [hwritten, quote, quotedWith]
  · obtain ⟨cs, hcs, hread⟩ := exists_toList_quote s rest
    rw [hwritten, hcs, value, hread]

theorem ofOption {α : Type} {f : α → Json} {o : Option α} (h : ∀ a ∈ o, Reads (f a)) :
    Reads (ofOption f o) := by
  cases o with
  | none => exact null
  | some a => exact h a rfl

theorem setMember_of_not_mem {members : List (LooseText × Json)} {name : LooseText}
    (h : name ∉ members.map Prod.fst) (v : Json) :
    setMember members name v = members ++ [(name, v)] := by
  rw [setMember, if_neg]
  simpa using h

/-- A member in its written form. -/
def memberText (depth : Nat) (name : String) (v : Json) : String :=
  quote name ++ ": " ++ (writtenAt depth v).text

section
variable {v : Json} (hv : v.IsWhole)
include hv

theorem text_writtenMembers (depth : Nat) (lead name : String) (ms : List (LooseText × Json)) :
    (writtenMembers depth lead ((.text name, v) :: ms)).text = lead ++ (memberText depth name v ++
      (writtenMembers depth ("," ++ indentation depth) ms).text) := by
  have hname : literal (.text name) = { text := quote name } := rfl
  simp [writtenMembers, hname, hv depth, memberText, String.append_assoc]

theorem toList_writtenMembers (depth : Nat) (lead name : String) (ms : List (LooseText × Json)) :
    (writtenMembers depth lead ((.text name, v) :: ms)).text.toList =
      lead.toList ++ (writtenMembers depth "" ((.text name, v) :: ms)).text.toList := by
  rw [text_writtenMembers hv, text_writtenMembers hv, String.toList_append, String.empty_append]

theorem exists_toList_writtenMembers (depth : Nat) (name : String) (ms : List (LooseText × Json)) :
    ∃ cs, (writtenMembers depth "" ((.text name, v) :: ms)).text.toList = '"' :: cs := by
  rw [text_writtenMembers hv]
  simp [memberText, quote, quotedWith]

end

theorem not_mem_of_nodup {done ms : List (LooseText × Json)} {name : LooseText} {v : Json}
    (h : ((done ++ (name, v) :: ms).map Prod.fst).Nodup) : name ∉ done.map Prod.fst := by
  intro hmem
  rw [List.map_append, List.map_cons, List.nodup_append] at h
  exact h.2.2 _ hmem _ List.mem_cons_self rfl

/-- What a reader of members does with the first of them. -/
theorem exists_members_written {name : String} {v : Json} {ms done : List (LooseText × Json)}
    (hv : Reads v) (hname : .text name ∉ done.map Prod.fst) (depth : Nat) {fuel : Nat}
    (hfuel : (writtenMembers depth "" ((.text name, v) :: ms)).text.toList.length ≤ fuel)
    (rest : List Char) :
    ∃ left, (writtenMembers depth ("," ++ indentation depth) ms).text.toList.length ≤ left ∧
      members fuel done
          ((writtenMembers depth "" ((.text name, v) :: ms)).text.toList ++ rest) =
        match skipSpaces
            ((writtenMembers depth ("," ++ indentation depth) ms).text.toList ++ rest) with
        | ',' :: cs => members left (done ++ [(.text name, v)]) (skipSpaces cs)
        | '\x7d' :: cs => .ok (object (done ++ [(.text name, v)]), cs)
        | _ => .error .malformed := by
  rw [text_writtenMembers hv.whole, String.empty_append, String.toList_append] at hfuel ⊢
  generalize (writtenMembers depth ("," ++ indentation depth) ms).text.toList = tail at hfuel ⊢
  have hlength : (memberText depth name v).toList.length =
      (quote name).toList.length + 2 + (writtenAt depth v).text.toList.length := by
    simp [memberText, Nat.add_assoc, Nat.add_comm 2]
  rw [List.length_append, hlength] at hfuel
  obtain ⟨left, rfl⟩ : ∃ n, fuel = n + 1 := ⟨fuel - 1, by omega⟩
  refine ⟨left, by omega, ?_⟩
  obtain ⟨cs, hcs, hread⟩ :=
    exists_toList_quote name (':' :: ' ' :: ((writtenAt depth v).text.toList ++ (tail ++ rest)))
  have htext : (memberText depth name v).toList ++ tail ++ rest = '"' :: cs := by
    rw [← hcs]
    simp [memberText]
  have hvalue : skipSpaces (' ' :: ((writtenAt depth v).text.toList ++ (tail ++ rest))) =
      (writtenAt depth v).text.toList ++ (tail ++ rest) := by
    obtain ⟨d, ds, hds, hd⟩ := hv.head depth
    rw [hds, List.cons_append]
    exact skipSpaces_cons hd (ds ++ (tail ++ rest))
  have hlen : (writtenAt depth v).text.toList.length ≤ left := by omega
  have hmembers := members.eq_2 done left cs
  simp only [hread, skipSpaces_cons (c := ':') rfl, hvalue,
    hv.read depth left (tail ++ rest) hlen, setMember_of_not_mem hname] at hmembers
  rw [htext]
  exact hmembers

/-- Members come back one by one, each but the first behind a comma. -/
theorem members_written {name : String} {v : Json} {ms : List (LooseText × Json)} (hv : Reads v)
    (hms : AllMembers Reads ms) {done : List (LooseText × Json)}
    (hnames : ((done ++ (.text name, v) :: ms).map Prod.fst).Nodup) (depth : Nat) {fuel : Nat}
    (hfuel : (writtenMembers depth "" ((.text name, v) :: ms)).text.toList.length ≤ fuel)
    (depth' : Nat) (rest : List Char) :
    members fuel done ((writtenMembers depth "" ((.text name, v) :: ms)).text.toList ++
      ((indentation depth').toList ++ '\x7d' :: rest)) =
        .ok (object (done ++ (.text name, v) :: ms), rest) := by
  induction hms generalizing name v done fuel with
  | nil =>
    obtain ⟨left, -, hmember⟩ := exists_members_written hv (not_mem_of_nodup hnames) depth hfuel
      ((indentation depth').toList ++ '\x7d' :: rest)
    rw [hmember, writtenMembers, String.toList_empty, List.nil_append, skipSpaces_indentation,
      skipSpaces_cons rfl]
    rfl
  | @cons name' v' ms hv' _ ih =>
    obtain ⟨left, hleft, hmember⟩ := exists_members_written hv (not_mem_of_nodup hnames) depth hfuel
      ((indentation depth').toList ++ '\x7d' :: rest)
    have hnames' : ((done ++ [(LooseText.text name, v)] ++ (.text name', v') :: ms).map
        Prod.fst).Nodup := by
      simpa using hnames
    rw [toList_writtenMembers hv'.whole, List.length_append] at hleft
    have hnext := @ih name' v' hv' _ hnames' left (by omega)
    obtain ⟨cs, hcs⟩ := exists_toList_writtenMembers hv'.whole depth name' ms
    have hcomma (cs : List Char) : skipSpaces (",".toList ++ cs) = ',' :: cs :=
      skipSpaces_cons rfl cs
    rw [hmember, toList_writtenMembers hv'.whole, String.toList_append, List.append_assoc,
      List.append_assoc, hcomma]
    rw [hcs, List.cons_append] at hnext ⊢
    simp only [skipSpaces_indentation, skipSpaces_cons (c := '"') rfl]
    simpa using hnext

/-- An object whose names differ comes back if its members do. -/
theorem object {ms : List (LooseText × Json)}
    (hms : AllMembers Reads ms) (hnames : (ms.map Prod.fst).Nodup) : Reads (object ms) := by
  have hwhole : AllMembers IsWhole ms := hms.imp fun _ hv => hv.whole
  cases hms with
  | nil =>
    refine of_succ (fun depth => by rw [writtenAt]) (fun depth => ?_) fun depth fuel rest _ => ?_
    · exact ⟨'\x7b', ['\x7d'], by rw [writtenAt]; rfl, rfl⟩
    · rw [writtenAt]
      rfl
  | @cons name v ms hv hrest =>
    have htext (depth : Nat) : (writtenAt depth (.object ((.text name, v) :: ms))).text.toList =
        '\x7b' :: ((indentation (depth + 1)).toList ++
          ((writtenMembers (depth + 1) "" ((.text name, v) :: ms)).text.toList ++
            ((indentation depth).toList ++ ['\x7d']))) := by
      rw [writtenAt, Written.text_append (whole_writtenMembers _ _ hwhole), String.toList_append,
        toList_writtenMembers hv.whole]
      simp
    refine of_succ (isWhole_object hwhole) (fun depth => ⟨'\x7b', _, htext depth, rfl⟩)
      fun depth fuel rest hfuel => ?_
    rw [htext] at hfuel ⊢
    simp only [List.length_cons, List.length_append] at hfuel
    have hread := @members_written name v ms hv hrest [] hnames (depth + 1) fuel (by omega) depth rest
    obtain ⟨cs, hcs⟩ := exists_toList_writtenMembers hv.whole (depth + 1) name ms
    rw [hcs, List.cons_append] at hread
    rw [List.cons_append, value.eq_4]
    simp only [hcs, List.append_assoc, List.cons_append, List.nil_append, skipSpaces_indentation,
      skipSpaces_cons (c := '"') rfl]
    exact hread

end Reads

open Reader in
theorem parse_pretty {v : Json} (hv : Reads v) : parse v.pretty = .ok v := by
  obtain ⟨c, cs, hcs, hc⟩ := hv.head 0
  have hread := hv.read 0 (2 * v.pretty.toList.length + 2) [] (by rw [pretty, written]; omega)
  have hskip : skipSpaces v.pretty.toList = v.pretty.toList ++ [] := by
    rw [List.append_nil, pretty, written, hcs]
    exact skipSpaces_cons hc cs
  rw [← written, ← pretty] at hread
  simp only [parse, hskip, hread]
  rfl

end Clausification.Json
