import PgCatalog.Session.IdentitySpellings
import PgCatalog.Session.IdentityText
import PgCatalog.Sql.Rewriting

/-! The pass over the spellings of a session's identity: the text is edited, parsed, rewritten
and printed. -/
namespace PgCatalog.Session

open Library Sql

/-- What reads statements and what prints them. -/
structure Dialect where
  parseSql : List Char → Except String (List Statement)
  print : Statement → List Char

/-- The outer `none` is a panic. -/
def normalizeSessionIdentitySpellings (tokenizer : Tokenizer) (dialect : Dialect)
    (sql : List Char) : Option (Except DataFusionError (List Char)) :=
  (dropParenthesesAfterAParenthesisLessKeyword tokenizer sql).map fun edited =>
    edited.bind fun text =>
      ((dialect.parseSql text).mapError fun e => .plan s!"SQL parse error: {e}").map
        fun statements =>
          if statements.isEmpty then text
          else ("; ".toList).intercalate
            (statements.map fun s => dialect.print (rewriteKeywordsToRegisteredCalls s))

theorem rewriteKeywords_eq (s : Statement) :
    rewriteKeywordsToRegisteredCalls s = s.replaced registeredSpelling := by
  match s with
  | .query _ => rfl
  | .set (.singleAssignment ..) => rfl
  | .set (.setTimeZone ..) => rfl
  | .set (.other _) => rfl
  | .other .. => rfl

/-- No call that answers a spelling is a spelling itself. -/
theorem registeredCall_unspelled :
    ∀ spelling ∈ SPELLINGS, spellingWrittenAs (registeredCall spelling) = none := by
  decide +kernel

theorem registeredSpelling_unspelled (e : Expr) :
    spellingWrittenAs (registeredSpelling e) = none := by
  rw [registeredSpelling]
  cases written : spellingWrittenAs e with
  | none => exact written
  | some spelling =>
    obtain ⟨word, _, found⟩ := Option.bind_eq_some_iff.mp written
    exact registeredCall_unspelled spelling (List.mem_of_find?_eq_some found)

theorem registeredSpelling_eq_self {e : Expr} :
    registeredSpelling e = e ↔ spellingWrittenAs e = none := by
  constructor
  · intro same
    rw [← same]
    exact registeredSpelling_unspelled e
  · intro unspelled
    rw [registeredSpelling, unspelled]

/-- A call that answers a spelling holds no expression, so what is put in a place holds none that
was not there. -/
theorem registeredCall_within (spelling : IdentitySpelling) :
    (registeredCall spelling).within = [] := by
  rw [registeredCall]
  cases spelling.parenthesised <;> rfl

theorem visited_unspelled (s : Statement) :
    ∀ e ∈ (rewriteKeywordsToRegisteredCalls s).visited, spellingWrittenAs e = none := by
  rw [rewriteKeywords_eq]
  refine Statement.visited_replaced (P := fun _ => True) (fun e _ inside => ?_) s fun _ _ => trivial
  rw [Expr.visited_eq]
  refine List.forall_mem_cons.mpr ⟨registeredSpelling_unspelled _, ?_⟩
  rw [registeredSpelling]
  cases spellingWrittenAs (e.rebuilt registeredSpelling) with
  | none => exact inside
  | some spelling =>
    rw [registeredCall_within]
    exact List.forall_mem_nil _

theorem rewriteKeywords_eq_self {s : Statement} :
    rewriteKeywordsToRegisteredCalls s = s ↔ ∀ e ∈ s.visited, spellingWrittenAs e = none := by
  constructor
  · intro same
    rw [← same]
    exact visited_unspelled s
  · intro unspelled
    rw [rewriteKeywords_eq]
    exact s.replaced_fixed fun e inside => registeredSpelling_eq_self.mpr (unspelled e inside)

/-- The rewriting of a statement leaves no spelling of the session's identity, changes exactly the
statements that have one, and has nothing left to do on what it made. -/
theorem spellings_rewritten (s : Statement) :
    (∀ e ∈ (rewriteKeywordsToRegisteredCalls s).visited, spellingWrittenAs e = none) ∧
    (rewriteKeywordsToRegisteredCalls s = s ↔ ∀ e ∈ s.visited, spellingWrittenAs e = none) ∧
    rewriteKeywordsToRegisteredCalls (rewriteKeywordsToRegisteredCalls s) =
      rewriteKeywordsToRegisteredCalls s :=
  ⟨visited_unspelled s, rewriteKeywords_eq_self, rewriteKeywords_eq_self.mpr (visited_unspelled s)⟩

end PgCatalog.Session
