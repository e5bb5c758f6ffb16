import Mathlib.Data.List.Basic

/-! Chains of rewrites that each read a text, change its statements and write them again. -/
namespace PgCatalog.Library

/-- How texts are read into statements and statements written. A list of statements, written
with semicolons between them, is read again as so many. -/
structure Grammar (S ε : Type) where
  parse : String → Except ε (List S)
  /-- The reading of a second dialect. -/
  parseGeneric : String → Except ε (List S)
  print : S → String
  joined : ∀ ss : List S, ∃ ss',
    parse ("; ".intercalate (ss.map print)) = .ok ss' ∧ ss'.length = ss.length

/-- What a pass makes of the statements that it reads. -/
inductive PassShape where
  /-- They are written with a separator between them. The text can stay as it came where none
  is rewritten, and where it cannot be read. -/
  | joined (separator : String) (onlyIfRewritten lenient : Bool)
  /-- Only the last one is kept. -/
  | last
  deriving DecidableEq, Repr

/-- The statements after a rewrite, as many as before, and whether any was rewritten. -/
structure Rewrite (S ε : Type) where
  run : List S → Except ε (List S × Bool)
  length : ∀ {ss ss' rewritten}, run ss = .ok (ss', rewritten) → ss'.length = ss.length

namespace Grammar
variable {S ε : Type} (g : Grammar S ε)

def written (separator : String) (ss : List S) : String := separator.intercalate (ss.map g.print)

/-- A text made of the last statement alone; `empty` is the error without any. -/
def runLast (empty : ε) (rewrite : Rewrite S ε) (ss : List S) : Except ε String :=
  match ss.getLast? with
  | none => .error empty
  | some s => (rewrite.run [s]).map fun out => g.written "" out.1

def runPass (empty : ε) (rewrite : Rewrite S ε) (text : String) : PassShape → Except ε String
  | .joined separator onlyIfRewritten lenient =>
    match g.parse text with
    | .error e => if lenient then .ok text else .error e
    | .ok ss => (rewrite.run ss).map fun out =>
      if onlyIfRewritten && !out.2 then text else g.written separator out.1
  | .last =>
    match g.parseGeneric text with
    | .error e => .error e
    | .ok ss => g.runLast empty rewrite ss

/-- What is written with semicolons is read again as many. -/
theorem parse_runPass {empty : ε} {rw_ : Rewrite S ε} {text out : String} {ss : List S}
    (parsed : g.parse text = .ok ss)
    (ran : g.runPass empty rw_ text (.joined "; " false false) = .ok out) :
    ∃ ss', g.parse out = .ok ss' ∧ ss'.length = ss.length := by
  rw [runPass, parsed] at ran
  dsimp only at ran
  cases made : rw_.run ss with
  | error e =>
    rw [made] at ran
    cases ran
  | ok result =>
    rw [made] at ran
    obtain rfl := Except.ok.inj ran
    obtain ⟨ss', again, same⟩ := g.joined result.1
    exact ⟨ss', again, same.trans (rw_.length made)⟩

section
variable {P : Type} (empty : ε) (shape : P → PassShape) (rewrite : P → Rewrite S ε)

def runPasses : List P → String → Except ε String
  | [], text => .ok text
  | p :: rest, text =>
    match g.runPass empty (rewrite p) text (shape p) with
    | .error e => .error e
    | .ok out => runPasses rest out

/-- Some pass refuses the text that those before it leave: it cannot read it, or not rewrite
what it reads. -/
inductive Refused : List P → String → Prop
  | here {p rest text e} (refuses : g.runPass empty (rewrite p) text (shape p) = .error e) :
    Refused (p :: rest) text
  | later {p rest text out} (passes : g.runPass empty (rewrite p) text (shape p) = .ok out)
    (refused : Refused rest out) : Refused (p :: rest) text

variable {empty shape rewrite}

theorem refused_iff {passes : List P} {text : String} :
    g.Refused empty shape rewrite passes text ↔
      ∃ e, g.runPasses empty shape rewrite passes text = .error e := by
  induction passes generalizing text with
  | nil =>
    constructor
    · intro refused
      cases refused
    · rintro ⟨e, failed⟩
      cases failed
  | cons p rest ih =>
    unfold runPasses
    cases ran : g.runPass empty (rewrite p) text (shape p) with
    | error e => exact iff_of_true (.here ran) ⟨e, rfl⟩
    | ok out =>
      dsimp only
      rw [← ih]
      constructor
      · rintro (refuses | ⟨passes, refused⟩)
        · rw [ran] at refuses
          cases refuses
        · rw [ran] at passes
          rwa [Except.ok.inj passes]
      · exact Refused.later ran

theorem runPasses_append (first second : List P) (text : String) :
    g.runPasses empty shape rewrite (first ++ second) text =
      match g.runPasses empty shape rewrite first text with
      | .error e => .error e
      | .ok out => g.runPasses empty shape rewrite second out := by
  induction first generalizing text with
  | nil => rfl
  | cons p rest ih =>
    rw [List.cons_append, runPasses, runPasses]
    cases g.runPass empty (rewrite p) text (shape p) with
    | error e => rfl
    | ok out => exact ih out

/-- The text is one statement as it is written. -/
def Single (text : String) : Prop := ∃ s, text = g.print s

theorem single_written {separator : String} {ss : List S} (one : ss.length = 1) :
    g.Single (g.written separator ss) := by
  obtain ⟨s, rfl⟩ := List.length_eq_one_iff.mp one
  refine ⟨s, ?_⟩
  rw [written, List.map_singleton, String.intercalate_singleton]

theorem parse_single {text : String} (single : g.Single text) : ∃ s, g.parse text = .ok [s] := by
  obtain ⟨s, rfl⟩ := single
  obtain ⟨ss, parsed, one⟩ := g.joined [s]
  rw [List.map_singleton, String.intercalate_singleton] at parsed
  obtain ⟨s', rfl⟩ := List.length_eq_one_iff.mp one
  exact ⟨s', parsed⟩

theorem single_of_map {rw_ : Rewrite S ε} {s : S} {out : String}
    {write : List S × Bool → String}
    (single : ∀ result : List S × Bool, result.1.length = 1 → g.Single (write result))
    (ran : (rw_.run [s]).map write = .ok out) : g.Single out := by
  cases made : rw_.run [s] with
  | error e =>
    rw [made] at ran
    cases ran
  | ok result =>
    rw [made] at ran
    obtain rfl := Except.ok.inj ran
    exact single result (rw_.length made)

/-- What keeps the last statement leaves one. -/
theorem single_of_last {rw_ : Rewrite S ε} {text out : String}
    (ran : g.runPass empty rw_ text .last = .ok out) : g.Single out := by
  rw [runPass] at ran
  cases parsed : g.parseGeneric text with
  | error e =>
    rw [parsed] at ran
    cases ran
  | ok ss =>
    rw [parsed] at ran
    dsimp only [runLast] at ran
    cases kept : ss.getLast? with
    | none =>
      rw [kept] at ran
      cases ran
    | some s =>
      rw [kept] at ran
      exact g.single_of_map (fun _ one => g.single_written one) ran

/-- Any pass leaves one statement as one. -/
theorem single_runPass {shape : PassShape} {rw_ : Rewrite S ε} {text out : String}
    (single : g.Single text) (ran : g.runPass empty rw_ text shape = .ok out) : g.Single out := by
  cases shape with
  | last => exact g.single_of_last ran
  | joined separator onlyIfRewritten lenient =>
    obtain ⟨s, parsed⟩ := g.parse_single single
    rw [runPass, parsed] at ran
    refine g.single_of_map (fun result one => ?_) ran
    split
    · exact single
    · exact g.single_written one

theorem single_runPasses {passes : List P} {text out : String} (single : g.Single text)
    (ran : g.runPasses empty shape rewrite passes text = .ok out) : g.Single out := by
  induction passes generalizing text with
  | nil =>
    obtain rfl := Except.ok.inj ran
    exact single
  | cons p rest ih =>
    unfold runPasses at ran
    split at ran
    · cases ran
    · rename_i passed
      exact ih (g.single_runPass single passed) ran

/-- After a pass that keeps the last statement there is one, whatever there was. -/
theorem single_of_mem_last {passes : List P} {text out : String}
    (dropped : ∃ p ∈ passes, shape p = .last)
    (ran : g.runPasses empty shape rewrite passes text = .ok out) : g.Single out := by
  obtain ⟨p, member, last⟩ := dropped
  obtain ⟨first, second, rfl⟩ := List.append_of_mem member
  rw [runPasses_append] at ran
  split at ran
  · cases ran
  · unfold runPasses at ran
    split at ran
    · cases ran
    · rename_i passed
      rw [last] at passed
      exact g.single_runPasses (g.single_of_last passed) ran

end

end Grammar

end PgCatalog.Library
