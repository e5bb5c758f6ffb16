import PgCatalog.Server.SessionVariables
import PgCatalog.Session.Passes

/-! A query string of several statements, sent through the simple protocol. -/
namespace PgCatalog.Server

open Library Sql Router Session

/-- What the server is made of for statements of any kind, but for the settings of its
connection: the parser, the passes' rewrites, and what plans and runs one text. -/
structure StatementServer (S : Type) where
  grammar : Grammar S DataFusionError
  rewrite : PassName → Rewrite S DataFusionError
  statement : S → Statement
  /-- The names of a SHOW. -/
  showVariable : S → Option (List Ident)
  plan : String → ClientOpts → DFResult QueryResult × ClientOpts
  backend : Backend

namespace StatementServer
variable {S : Type} (server : StatementServer S)

def parseShowVariableName (text : String) : Option String :=
  match server.grammar.parse text with
  | .ok [s] =>
    match server.showVariable s with
    | some [variable_] => some variable_.value
    | _ => none
  | _ => none

def builtinResponse (text : String) (opts : ClientOpts) : Option Response :=
  match Backend.simpleQueryBuiltinResponse text with
  | some response => some response
  | none =>
    ((server.parseShowVariableName (trim text)).bind fun name =>
      showVariableResponse opts name.toLower).map .text

/-- The text that is rewritten and run: of a catalog query the qualified copy. A query of
`users` is answered without. -/
def route (text : String) (opts : ClientOpts) : DFResult (Option String) :=
  match runPasses server.grammar server.rewrite [.normalizeSessionIdentitySpellings] text with
  | .error e => .error e
  | .ok routable =>
    match server.grammar.parse routable with
    | .error e => .error e
    | .ok ss =>
      if isCatalogQuery { server.backend.ctx with searchPath := some opts.searchPath }
          (ss.map server.statement) then
        (runPasses server.grammar server.rewrite [.qualifyCatalogTables] routable).map some
      else if Backend.readsUsers text then .ok none
      else .ok (some text)

def executeSql (text : String) (opts : ClientOpts) : DFResult QueryResult × ClientOpts :=
  let parsed := (server.grammar.parse text).toOption.map (·.map server.statement)
  match applySessionSetStatement server.backend.display parsed none (some opts) with
  | (.error e, session) => (.error e, session.getD opts)
  | (.ok (some result), session) => (.ok result, session.getD opts)
  | (.ok none, _) =>
    match runPasses server.grammar server.rewrite rewriteAndExecutePasses text with
    | .error e => (.error e, opts)
    | .ok sql => server.plan sql opts

def dispatchQuery (text : String) (opts : ClientOpts) : DFResult QueryResult × ClientOpts :=
  match server.route text opts with
  | .error e => (.error e, opts)
  | .ok none => (.ok ([usersBatch], usersBatch.schema), opts)
  | .ok (some routed) => server.executeSql routed opts

def doQuery (text : String) (opts : ClientOpts) : DFResult (List Response) × ClientOpts :=
  let opts := server.backend.installAuthenticatedSessionUser opts
  match server.builtinResponse text opts with
  | some response => (.ok [response], opts)
  | none =>
    let outcome := server.dispatchQuery text opts
    (outcome.1.map fun result => [Backend.simpleResponse text result], outcome.2)

/-- Each text sent alone, one after the other, up to the first that fails. -/
def performAll : List String → ClientOpts → DFResult (List Response) × ClientOpts
  | [], opts => (.ok [], opts)
  | piece :: rest, opts =>
    let first := server.doQuery piece opts
    match first.1 with
    | .error e => (.error e, first.2)
    | .ok responses =>
      let later := performAll rest first.2
      (later.1.map (responses ++ ·), later.2)

end StatementServer

/-- A query string, cut at its semicolons into texts of one statement each. -/
structure QueryString {S : Type} (g : Grammar S DataFusionError) where
  pieces : List String
  some_ : pieces ≠ []
  single : ∀ piece ∈ pieces, ∃ s, g.parse piece = .ok [s]
  whole : ∃ ss, g.parse (";".intercalate pieces) = .ok ss ∧ ss.length = pieces.length

section
variable {S : Type} {g : Grammar S DataFusionError}

def QueryString.text (q : QueryString g) : String := ";".intercalate q.pieces

end

section
variable {S : Type} (server : StatementServer S) (q : QueryString server.grammar)
  (opts : ClientOpts)

/-- Every statement is performed in order and answered, or the whole query with an error. -/
def Performed : Prop :=
  (∃ e, (server.doQuery q.text opts).1 = .error e) ∨
    ∃ responses, (server.performAll q.pieces opts).1 = .ok responses ∧
      server.doQuery q.text opts = (.ok responses, (server.performAll q.pieces opts).2)

/-- The rewritten text holds as many statements, each the rewrite of its own. -/
def Preserved : Prop :=
  (∃ e, rewriteFilters server.grammar server.rewrite q.text = .error e) ∨
    ∃ (out : String) (ss : List S),
      rewriteFilters server.grammar server.rewrite q.text = .ok out ∧
      server.grammar.parse out = .ok ss ∧ ss.length = q.pieces.length ∧
      ∀ (i : Nat) (piece : String), q.pieces[i]? = some piece → ∃ (alone : String) (s : S),
        rewriteFilters server.grammar server.rewrite piece = .ok alone ∧
          server.grammar.parse alone = .ok [s] ∧ ss[i]? = some s

/-- The server does not answer the text itself, and a pass refuses what it is handed of it or
the planner what the passes leave. -/
def Fails (text : String) (opts : ClientOpts) : Prop :=
  server.builtinResponse text opts = none ∧
    ((∃ e, server.route text opts = .error e) ∨
      ∃ routed, server.route text opts = .ok (some routed) ∧
        (Refused server.grammar server.rewrite rewriteAndExecutePasses routed ∨
          ∃ sql e, runPasses server.grammar server.rewrite rewriteAndExecutePasses routed = .ok sql ∧
            (server.plan sql opts).1 = .error e))

end

section
variable {S : Type} {server : StatementServer S}

theorem doQuery_one {text : String} {opts : ClientOpts} {responses : List Response}
    (answered : (server.doQuery text opts).1 = .ok responses) : responses.length = 1 := by
  unfold StatementServer.doQuery at answered
  dsimp only at answered
  split at answered
  · obtain rfl := Except.ok.inj answered
    rfl
  · cases outcome : (server.dispatchQuery text
      (server.backend.installAuthenticatedSessionUser opts)).1 with
    | error e =>
      rw [outcome] at answered
      cases answered
    | ok result =>
      rw [outcome] at answered
      obtain rfl := Except.ok.inj answered
      rfl

theorem performAll_length {pieces : List String} {opts : ClientOpts} {responses : List Response}
    (answered : (server.performAll pieces opts).1 = .ok responses) :
    responses.length = pieces.length := by
  induction pieces generalizing opts responses with
  | nil =>
    obtain rfl := Except.ok.inj answered
    rfl
  | cons piece rest ih =>
    unfold StatementServer.performAll at answered
    dsimp only at answered
    cases first : (server.doQuery piece opts).1 with
    | error e =>
      rw [first] at answered
      cases answered
    | ok own =>
      rw [first] at answered
      dsimp only at answered
      cases later : (server.performAll rest (server.doQuery piece opts).2).1 with
      | error e =>
        rw [later] at answered
        cases answered
      | ok others =>
        rw [later] at answered
        obtain rfl := Except.ok.inj answered
        rw [List.length_append, doQuery_one first, ih later, List.length_cons, Nat.add_comm]

theorem performAll_single (piece : String) (opts : ClientOpts) :
    server.performAll [piece] opts = server.doQuery piece opts := by
  unfold StatementServer.performAll StatementServer.performAll
  cases outcome : server.doQuery piece opts with
  | mk answered after =>
    cases answered with
    | error e => rfl
    | ok responses =>
      dsimp only
      rw [Except.map, List.append_nil]

theorem QueryString.single_piece {g : Grammar S DataFusionError} {q : QueryString g}
    (one : q.pieces.length = 1) : q.pieces = [q.text] := by
  obtain ⟨piece, pieces⟩ := List.length_eq_one_iff.mp one
  rw [QueryString.text, pieces, String.intercalate_singleton]

theorem performed_iff_error (q : QueryString server.grammar) (opts : ClientOpts) :
    Performed server q opts ↔
      q.pieces.length = 1 ∨ ∃ e, (server.doQuery q.text opts).1 = .error e := by
  constructor
  · rintro (failed | ⟨responses, each, whole⟩)
    · exact .inr failed
    · left
      rw [← performAll_length each]
      exact doQuery_one (congrArg Prod.fst whole)
  · rintro (one | failed)
    · cases answered : (server.doQuery q.text opts).1 with
      | error e => exact .inl ⟨e, answered⟩
      | ok responses =>
        right
        rw [QueryString.single_piece one, performAll_single]
        exact ⟨responses, answered, Prod.ext answered rfl⟩
    · exact .inl failed

/-- What is run of several statements still holds as many. -/
theorem parse_route {text routed : String} {opts : ClientOpts} {ss : List S}
    (parsed : server.grammar.parse text = .ok ss)
    (route : server.route text opts = .ok (some routed)) :
    ∃ ss', server.grammar.parse routed = .ok ss' ∧ ss'.length = ss.length := by
  unfold StatementServer.route at route
  split at route
  · cases route
  · rename_i routable normalized
    obtain ⟨read, again, same⟩ := server.grammar.parse_runPass parsed (runPasses_one normalized)
    rw [again] at route
    dsimp only at route
    split at route
    · cases qualified :
        runPasses server.grammar server.rewrite [.qualifyCatalogTables] routable with
      | error e =>
        rw [qualified] at route
        cases route
      | ok out =>
        rw [qualified] at route
        obtain rfl := Option.some.inj (Except.ok.inj route)
        obtain ⟨ss', read', same'⟩ := server.grammar.parse_runPass again (runPasses_one qualified)
        exact ⟨ss', read', same'.trans same⟩
    · split at route
      · cases route
      · obtain rfl := Option.some.inj (Except.ok.inj route)
        exact ⟨ss, parsed, rfl⟩

/-- No list but that of one SET is a SET of the session. -/
theorem several_not_set {ss : List Statement} (several : ss.length ≠ 1) :
    classifySetStatement (some ss) = .notASessionSet := by
  unfold classifySetStatement
  split
  · rename_i same
    obtain rfl := Option.some.inj same
    exact absurd rfl several
  · rename_i same
    obtain rfl := Option.some.inj same
    exact absurd rfl several
  · rfl

/-- Several statements are never run as a SET, so they go through the passes. -/
theorem executeSql_several {text : String} {opts : ClientOpts} {ss : List S}
    (parsed : server.grammar.parse text = .ok ss) (several : ss.length ≠ 1) :
    server.executeSql text opts =
      match runPasses server.grammar server.rewrite rewriteAndExecutePasses text with
      | .error e => (.error e, opts)
      | .ok sql => server.plan sql opts := by
  have unset : applySessionSetStatement server.backend.display
      ((server.grammar.parse text).toOption.map (·.map server.statement)) none (some opts) =
        (.ok none, some opts) := by
    rw [parsed]
    unfold applySessionSetStatement
    dsimp only [Except.toOption, Option.map_some]
    rw [several_not_set (by rwa [List.length_map])]
  unfold StatementServer.executeSql
  dsimp only
  rw [unset]

/-- Of several statements exactly those fail that some pass or the planner refuses. -/
theorem error_iff_fails {text : String} {opts : ClientOpts} {ss : List S}
    (parsed : server.grammar.parse text = .ok ss) (several : ss.length ≠ 1) :
    (∃ e, (server.doQuery text opts).1 = .error e) ↔
      Fails server text (server.backend.installAuthenticatedSessionUser opts) := by
  unfold StatementServer.doQuery Fails
  dsimp only
  generalize server.backend.installAuthenticatedSessionUser opts = opts
  cases built : server.builtinResponse text opts with
  | some response =>
    refine iff_of_false ?_ fun fails => ?_
    · rintro ⟨e, failed⟩
      cases failed
    · cases fails.1
  | none =>
    have mapped : ∀ outcome : DFResult QueryResult,
        (∃ e, outcome.map (fun result => [Backend.simpleResponse text result]) = .error e) ↔
          ∃ e, outcome = .error e := by
      intro outcome
      cases outcome with
      | error e => exact iff_of_true ⟨e, rfl⟩ ⟨e, rfl⟩
      | ok result => exact iff_of_false nofun nofun
    dsimp only
    rw [mapped, StatementServer.dispatchQuery]
    cases route : server.route text opts with
    | error e => exact iff_of_true ⟨e, rfl⟩ ⟨rfl, .inl ⟨e, rfl⟩⟩
    | ok routed =>
      cases routed with
      | none =>
        refine iff_of_false nofun ?_
        rintro ⟨_, ⟨e, failed⟩ | ⟨_, other, _⟩⟩
        · cases failed
        · cases other
      | some routed =>
        obtain ⟨ss', again, same⟩ := parse_route parsed route
        dsimp only
        rw [executeSql_several again (same ▸ several)]
        cases ran : runPasses server.grammar server.rewrite rewriteAndExecutePasses routed with
        | error e =>
          refine iff_of_true ⟨e, rfl⟩ ⟨rfl, .inr ⟨routed, rfl, .inl ?_⟩⟩
          exact refused_iff.mpr ⟨e, ran⟩
        | ok sql =>
          constructor
          · rintro ⟨e, failed⟩
            exact ⟨rfl, .inr ⟨routed, rfl, .inr ⟨sql, e, ran, failed⟩⟩⟩
          · rintro ⟨_, ⟨e, failed⟩ | ⟨other, same', refused | ⟨sql', e, ran', failed⟩⟩⟩
            · cases failed
            · obtain ⟨e, failed⟩ := refused_iff.mp refused
              rw [← Option.some.inj (Except.ok.inj same'), ran] at failed
              cases failed
            · rw [← Option.some.inj (Except.ok.inj same'), ran] at ran'
              rw [← Except.ok.inj ran'] at failed
              exact ⟨e, failed⟩

theorem preserved_iff (q : QueryString server.grammar) :
    Preserved server q ↔ q.pieces.length = 1 ∨
      Refused server.grammar server.rewrite rewriteFiltersPasses q.text := by
  rw [refused_iff]
  constructor
  · rintro (failed | ⟨out, ss, ran, parsed, same, -⟩)
    · exact .inr failed
    · obtain ⟨s, one⟩ := rewriteFilters_single ran
      rw [one] at parsed
      obtain rfl := Except.ok.inj parsed
      exact .inl same.symm
  · rintro (one | failed)
    · cases ran : rewriteFilters server.grammar server.rewrite q.text with
      | error e => exact .inl ⟨e, ran⟩
      | ok out =>
        obtain ⟨s, parsed⟩ := rewriteFilters_single ran
        refine .inr ⟨out, [s], ran, parsed, one.symm, fun i piece placed => ?_⟩
        rw [QueryString.single_piece one] at placed
        cases i with
        | zero =>
          obtain rfl := Option.some.inj placed
          exact ⟨out, s, ran, parsed, rfl⟩
        | succ i => cases placed
    · exact .inl failed

end

/-- No statement is lost exactly where there is only one or the query fails. -/
theorem statements_kept_iff {S : Type} (server : StatementServer S)
    (q : QueryString server.grammar) (opts : ClientOpts) :
    (Performed server q opts ↔ q.pieces.length = 1 ∨
      Fails server q.text (server.backend.installAuthenticatedSessionUser opts)) ∧
    (Preserved server q ↔ q.pieces.length = 1 ∨
      Refused server.grammar server.rewrite rewriteFiltersPasses q.text) := by
  refine ⟨?_, preserved_iff q⟩
  rw [performed_iff_error]
  by_cases one : q.pieces.length = 1
  · exact iff_of_true (.inl one) (.inl one)
  · obtain ⟨ss, parsed, same⟩ := q.whole
    rw [← same] at one ⊢
    have fails := @error_iff_fails S server q.text opts ss parsed one
    exact or_congr_right fails

/-! ## `BEGIN; SELECT 1` -/

inductive SmallStatement where
  | begin
  | selectOne
  deriving DecidableEq

/-- The statements of a text with no others than these two. -/
def smallParse : List Char → Option (List SmallStatement)
  | [] => some []
  | ';' :: rest => smallParse rest
  | ' ' :: rest => smallParse rest
  | 'B' :: 'E' :: 'G' :: 'I' :: 'N' :: rest => (smallParse rest).map (.begin :: ·)
  | 'S' :: 'E' :: 'L' :: 'E' :: 'C' :: 'T' :: ' ' :: '1' :: rest =>
    (smallParse rest).map (.selectOne :: ·)
  | _ => none

def SmallStatement.print : SmallStatement → String
  | .begin => "BEGIN"
  | .selectOne => "SELECT 1"

theorem smallParse_print (s : SmallStatement) (rest : List Char) :
    smallParse (s.print.toList ++ rest) = (smallParse rest).map (s :: ·) := by
  cases s <;> rfl

def readSmall (text : String) : DFResult (List SmallStatement) :=
  match smallParse text.toList with
  | some ss => .ok ss
  | none => .error (.plan "SQL parse error")

theorem smallParse_joined (ss : List SmallStatement) :
    smallParse ("; ".intercalate (ss.map SmallStatement.print)).toList = some ss := by
  induction ss with
  | nil => rfl
  | cons s rest ih =>
    cases rest with
    | nil =>
      have alone := smallParse_print s []
      rw [List.append_nil] at alone
      rw [List.map_singleton, String.intercalate_singleton, alone]
      rfl
    | cons s' rest =>
      rw [List.map_cons, List.map_cons, String.intercalate_cons_cons, String.toList_append,
        String.toList_append, List.append_assoc, smallParse_print]
      rw [List.map_cons] at ih
      change (smallParse ("; ".intercalate _).toList).map (s :: ·) = _
      rw [ih]
      rfl

def smallGrammar : Grammar SmallStatement DataFusionError where
  parse := readSmall
  parseGeneric := readSmall
  print := SmallStatement.print
  joined ss := ⟨ss, by rw [readSmall, smallParse_joined], rfl⟩

theorem unchanged_kept (set : SetStatement) (_ : Option (List ScalarValue)) (opts : ClientOpts) :
    opts = opts ∨ ∃ key value,
      (dottedName set).map String.toLower = some ("pg_catalog." ++ key) ∧
        opts.set key value = .ok opts := .inl rfl

/-- A server of these statements, with passes that rewrite nothing. -/
def smallServer : StatementServer SmallStatement where
  grammar := smallGrammar
  rewrite _ := ⟨fun ss => .ok (ss, false), fun ran => by rw [(Prod.mk.inj (Except.ok.inj ran)).1]⟩
  statement _ := .other [] [] []
  showVariable _ := none
  plan _ opts := (.ok ([], []), opts)
  backend := ⟨⟨fun _ _ _ => false, fun _ => false, "datafusion", "public", none⟩, fun _ => "",
    ⟨fun _ _ opts => (.ok handled, opts), unchanged_kept⟩, none⟩

def beginSelect : QueryString smallGrammar where
  pieces := ["BEGIN", " SELECT 1"]
  some_ := by decide
  single := by
    intro piece member
    simp only [List.mem_cons, List.not_mem_nil, or_false] at member
    obtain rfl | rfl := member
    · exact ⟨.begin, rfl⟩
    · exact ⟨.selectOne, rfl⟩
  whole := ⟨[.begin, .selectOne], rfl, rfl⟩

/-- `BEGIN; SELECT 1` is answered with the tag of BEGIN, and the query is lost. -/
theorem begin_select_lost : ¬Performed smallServer beginSelect .initial := by
  intro performed
  have begins : Backend.startsWith (Backend.lowercase beginSelect.text) "begin" = true := by
    rw [Backend.startsWith, Backend.lowercase, toList_toLower, trim, String.toList_ofList]
    decide +kernel
  have answered : (smallServer.doQuery beginSelect.text .initial).1 =
      .ok [.execution "BEGIN"] := by
    have built : Backend.simpleQueryBuiltinResponse beginSelect.text = some (.execution "BEGIN") :=
      if_pos begins
    rw [StatementServer.doQuery, StatementServer.builtinResponse, built]
  obtain one | ⟨e, failed⟩ := (performed_iff_error _ _).mp performed
  · exact absurd one (by decide)
  · cases answered.symm.trans failed

end PgCatalog.Server
