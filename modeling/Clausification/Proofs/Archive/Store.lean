import Clausification.Proofs.Archive.Query

/-!
# What the archive holds

The queries that are kept are all that the archive's files are about: two files for each of them, and
the directory of results once there is one. Keeping a query takes what there was of it away and adds
it anew, and touches nothing of any other. A query with a torn formula is never kept, but the attempt
leaves the beginning of its file behind.
-/

namespace Clausification.Archive

/-- A query with the time of its last request and with its result. -/
structure Kept where
  query : Query
  time : String
  result : Derivation

def queryPath (q : Query) : Path := [fileName q.hash]

/-- What is left of the file of a query with a torn formula. -/
def remnant (q : Query) : Path × String := (queryPath q, "\x7b\n  \"formula\": ")

namespace Kept
variable (k : Kept)

def queryFile : Path × String := (queryPath k.query, (k.query.saved k.time).pretty)

def resultFile : Path × String :=
  (["results", fileName k.query.hash], (answer k.query.hash k.result).pretty)

def files : List (Path × String) := [k.queryFile, k.resultFile]

/-- How a list of the archive shows the query. -/
def entry : Entry where
  hash := k.query.hash
  formula := .loose k.query.formula
  timestamp := .string k.time
  markup := .ofOption .loose k.query.markup

end Kept

/-- What stands where, for the queries that are kept and for the torn ones. -/
inductive Holds (K : List Kept) (torn : List Query) : Path × Node → Prop
  | query {k : Kept} (hk : k ∈ K) : Holds K torn (k.queryFile.1, .file k.queryFile.2)
  | result {k : Kept} (hk : k ∈ K) : Holds K torn (k.resultFile.1, .file k.resultFile.2)
  | results (hK : K ≠ []) : Holds K torn (["results"], .directory)
  | remnant {q : Query} (hq : q ∈ torn) : Holds K torn ((remnant q).1, .file (remnant q).2)

/-- The archive keeps these queries and has broken off at those torn ones, all among the known ones,
and it holds nothing else. -/
structure Keeps (env : Environment) (known : List Query) (K : List Kept) (torn : List Query)
    (t : FileTree) : Prop where
  sound : t.Sound
  mem_entries : ∀ e, e ∈ t.entries ↔ Holds K torn e
  query_mem : ∀ k ∈ K, k.query ∈ known
  torn_mem : ∀ q ∈ torn, q ∈ known
  distinct : (K.map (·.query)).Nodup
  distinct_torn : torn.Nodup
  converted : ∀ k ∈ K, k.query.run env = .ok k.result
  converted_torn : ∀ q ∈ torn, ∃ d, q.run env = .ok d
  formula_text : ∀ k ∈ K, ∃ s, k.query.formula = .text s
  formula_torn : ∀ q ∈ torn, q.formula.text? = none

/-- A kept query in the stead of what was kept of it before. -/
def replace (K : List Kept) (k : Kept) : List Kept := K.filter (·.query ≠ k.query) ++ [k]

theorem mem_replace {K : List Kept} {k k' : Kept} :
    k' ∈ replace K k ↔ k' = k ∨ k'.query ≠ k.query ∧ k' ∈ K := by
  rw [replace, List.mem_append, List.mem_filter, List.mem_singleton, decide_eq_true_eq, or_comm,
    and_comm]

section
variable {env : Environment} {known : List Query} {K : List Kept} {torn : List Query} {t : FileTree}
  (hknown : ∀ q ∈ known, ∀ q' ∈ known, q.hash = q'.hash → q = q')

section
variable (h : Keeps env known K torn t)
include h

end

end

end Clausification.Archive
