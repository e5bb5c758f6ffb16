import PgCatalog.Library.Joined
import PgCatalog.Library.ListArray

/-! `array_to_string`: its arms for columns and constants, and what it says of each row. -/
namespace PgCatalog.UserFunctions

open Library

/-- A text for every row, or one for all of them. -/
inductive TextArgument where
  | scalar (value : Option String)
  | array (values : List (Option String))
  deriving DecidableEq

/-- The first argument; the two columns of lists differ in the width of their offsets, and a
constant list is a column of one row. -/
inductive ArrayArgument where
  | list (column : ListArray (Option String))
  | largeList (column : ListArray (Option String))
  | strings (values : List (Option String))
  | listScalar (column : ListArray (Option String)) (one : column.len = 1)
  | utf8 (value : Option String)

def TextArgument.HasRows (n : Nat) : TextArgument → Prop
  | .scalar _ => True
  | .array values => values.length = n

def ArrayArgument.HasRows (n : Nat) : ArrayArgument → Prop
  | .list column => column.len = n
  | .largeList column => column.len = n
  | .strings values => values.length = n
  | .listScalar _ _ => True
  | .utf8 _ => True

structure ScalarFunctionArgs where
  array : ArrayArgument
  delimiter : TextArgument
  nullString : Option TextArgument
  numberRows : Nat
  array_rows : array.HasRows numberRows
  delimiter_rows : delimiter.HasRows numberRows
  nullString_rows : ∀ v ∈ nullString, v.HasRows numberRows

/-- The elements of a row that are joined: a null is dropped if nothing stands for it. -/
def parts (elements : List (Option String)) (nullRep : Option String) : List String :=
  elements.filterMap fun element => element.or nullRep

def joinListElements (column : ListArray (Option String)) (delim : String)
    (nullRep : Option String) : TextArgument :=
  .array ((List.range column.len).map fun i =>
    if column.isNull i then none else some (delim.intercalate (parts (column.value i) nullRep)))

namespace ScalarFunctionArgs

variable (args : ScalarFunctionArgs)

def delim : String :=
  match args.delimiter with
  | .scalar (some s) => s
  | _ => ""

def nullRep : Option String :=
  match args.nullString with
  | some (.scalar opt) => opt
  | _ => none

def invoke : Except String TextArgument :=
  match args.array with
  | .list column => .ok (joinListElements column args.delim args.nullRep)
  | .largeList column => .ok (joinListElements column args.delim args.nullRep)
  | .strings values => .ok (.array values)
  | .listScalar column _ =>
    if column.isNull 0 then .ok (.scalar none)
    else .ok (.scalar (some (args.delim.intercalate (parts (column.value 0) args.nullRep))))
  | .utf8 (some s) => .ok (.array [some s])
  | .utf8 none => .error "unsupported argument to array_to_string"

end ScalarFunctionArgs

/-! ## Row by row -/

def TextArgument.at (i : Nat) : TextArgument → Option String
  | .scalar value => value
  | .array values => values.getD i none

def TextArgument.Constant : TextArgument → Prop
  | .scalar _ => True
  | .array _ => False

def ArrayArgument.Constant : ArrayArgument → Prop
  | .listScalar _ _ => True
  | .utf8 _ => True
  | _ => False

/-- A list or a text, of which there is no array to be joined. -/
inductive ArrayValue where
  | list (elements : Option (List (Option String)))
  | text (value : Option String)

def ArrayArgument.at (i : Nat) : ArrayArgument → ArrayValue
  | .list column => .list (column.row i)
  | .largeList column => .list (column.row i)
  | .strings values => .text (values.getD i none)
  | .listScalar column _ => .list (column.row 0)
  | .utf8 value => .text value

/-- PostgreSQL's `array_to_string`; a text is passed through. -/
def pgArrayToString : ArrayValue → Option String → Option String → Option String
  | .list (some elements), some delim, nullString =>
    some (delim.intercalate (parts elements nullString))
  | .list _, _, _ => none
  | .text value, _, _ => value

def TextArgument.alone (i : Nat) : TextArgument → TextArgument
  | .scalar value => .scalar value
  | .array values => .array [values.getD i none]

def ArrayArgument.alone (i : Nat) : ArrayArgument → ArrayArgument
  | .list column => .list (.single (column.row i))
  | .largeList column => .largeList (.single (column.row i))
  | .strings values => .strings [values.getD i none]
  | .listScalar column one => .listScalar column one
  | .utf8 value => .utf8 value

theorem TextArgument.alone_rows (i : Nat) (v : TextArgument) : (v.alone i).HasRows 1 := by
  cases v <;> simp [TextArgument.alone, TextArgument.HasRows]

theorem ArrayArgument.alone_rows (i : Nat) (a : ArrayArgument) : (a.alone i).HasRows 1 := by
  cases a <;> simp [ArrayArgument.alone, ArrayArgument.HasRows]

theorem TextArgument.alone_rows_of_mem (i : Nat) (v : Option TextArgument) :
    ∀ w ∈ v.map (TextArgument.alone i), w.HasRows 1 := by
  cases v <;> simp [TextArgument.alone_rows]

namespace ScalarFunctionArgs

variable (args : ScalarFunctionArgs)

/-- The call with the values of one row. -/
def atRow (i : Nat) : ScalarFunctionArgs :=
  ⟨args.array.alone i, args.delimiter.alone i, args.nullString.map (·.alone i), 1,
    args.array.alone_rows i, args.delimiter.alone_rows i,
    TextArgument.alone_rows_of_mem i args.nullString⟩

def nullStringAt (i : Nat) : Option String := args.nullString.bind (·.at i)

def pgRow (i : Nat) : Option String :=
  pgArrayToString (args.array.at i) (args.delimiter.at i) (args.nullStringAt i)

def AllConstant : Prop :=
  args.array.Constant ∧ args.delimiter.Constant ∧ ∀ v ∈ args.nullString, v.Constant

/-- The rows the engine takes a result for: one row is a constant if all arguments are. -/
def Yields (result : TextArgument) (rows : List (Option String)) : Prop :=
  match result with
  | .scalar value => rows = List.replicate args.numberRows value
  | .array values =>
    (values.length = args.numberRows ∧ rows = values) ∨
      (args.AllConstant ∧ ∃ value, values = [value] ∧ rows = List.replicate args.numberRows value)

/-- A result without an error, of PostgreSQL's value for each row. -/
def Right : Prop :=
  ∃ result, args.invoke = .ok result ∧
    args.Yields result ((List.range args.numberRows).map args.pgRow)

/-- Every row is right, within the call and by itself. -/
structure RowWise : Prop where
  right : args.Right
  alone : ∀ i < args.numberRows, (args.atRow i).pgRow 0 = args.pgRow i ∧ (args.atRow i).Right

/-- What is not read of a column does not show in a row: a delimiter with at most one part to
join or where it is empty, a NULL string without nulls or where it adds nothing. A null delimiter
always shows. -/
def RowReads (i : Nat) (elements : List (Option String)) : Prop :=
  ∃ delim, args.delimiter.at i = some delim ∧
    (args.delimiter.Constant ∨ delim = "" ∨ (parts elements (args.nullStringAt i)).length ≤ 1) ∧
    ((∀ v ∈ args.nullString, v.Constant) ∨ args.nullStringAt i = none ∨ none ∉ elements ∨
      (args.nullStringAt i = some "" ∧ (delim = "" ∨ elements.length ≤ 1)))

def ListsRead : Prop :=
  ∀ i < args.numberRows, ∀ elements, args.array.at i = .list (some elements) →
    args.RowReads i elements

/-- The lists are read right; a constant text is not null, and where a column varies there is but
one row. -/
def Readable : Prop :=
  match args.array with
  | .strings _ => True
  | .utf8 value => value ≠ none ∧ (args.AllConstant ∨ args.numberRows = 1)
  | _ => args.ListsRead

end ScalarFunctionArgs

/-! ## What shows in a row -/

theorem parts_some (elements : List (Option String)) (text : String) :
    parts elements (some text) = elements.map (·.getD text) := by
  induction elements with
  | nil => rfl
  | cons element rest ih => cases element <;> simp_all [parts]

theorem parts_of_no_null {elements : List (Option String)} (some_ : none ∉ elements)
    (r r' : Option String) : parts elements r = parts elements r' := by
  induction elements with
  | nil => rfl
  | cons element rest ih => cases element <;> simp_all [parts]

/-- The texts of a list, their number and their length together. -/
theorem parts_counts (elements : List (Option String)) (text : String) :
    (String.join (parts elements (some text))).length =
        (String.join (parts elements none)).length + elements.countP (·.isNone) * text.length ∧
      (parts elements (some text)).length =
        (parts elements none).length + elements.countP (·.isNone) := by
  induction elements with
  | nil => simp [parts]
  | cons element rest ih =>
    cases element <;> simp_all [parts, Nat.add_mul, String.join_cons] <;> omega

/-- Joined without a separator, empty texts are nothing. -/
theorem empties_vanish (elements : List (Option String)) :
    "".intercalate (parts elements none) = "".intercalate (parts elements (some "")) := by
  rw [empty_intercalate, empty_intercalate]
  induction elements with
  | nil => rfl
  | cons element rest ih => cases element <;> simp_all [parts, String.join_cons]

/-- A NULL string that is not read shows exactly where nulls make the join longer. -/
theorem dropped_eq_iff {elements : List (Option String)} {d delim text : String}
    (d_ : d = delim ∨ d = "") (null : none ∈ elements) :
    d.intercalate (parts elements none) = delim.intercalate (parts elements (some text)) ↔
      text = "" ∧ (delim = "" ∨ elements.length ≤ 1) := by
  have count : 0 < elements.countP (·.isNone) := List.countP_pos_iff.mpr ⟨none, null, rfl⟩
  constructor
  · intro same
    obtain ⟨lengths, number⟩ := parts_counts elements text
    have whole : (parts elements (some text)).length = elements.length := by simp [parts_some]
    have same := congrArg String.length same
    simp only [length_intercalate, lengths, number] at same
    have shorter : d.length * ((parts elements none).length - 1) ≤
        delim.length * ((parts elements none).length - 1) :=
      Nat.mul_le_mul_right _ (by obtain rfl | rfl := d_ <;> simp)
    have fewer : delim.length * ((parts elements none).length - 1) ≤
        delim.length * ((parts elements none).length + elements.countP (·.isNone) - 1) :=
      Nat.mul_le_mul_left _ (by omega)
    have empty : elements.countP (·.isNone) * text.length = 0 := by omega
    have none_ : text.length = 0 := (Nat.mul_eq_zero.mp empty).resolve_left count.ne'
    refine ⟨by simpa using none_, ?_⟩
    by_cases none_ : delim = ""
    · exact .inl none_
    · have positive : 0 < delim.length := Nat.pos_of_ne_zero (by simpa using none_)
      have equal : delim.length * ((parts elements none).length + elements.countP (·.isNone) - 1) =
          delim.length * ((parts elements none).length - 1) := by omega
      have equal := Nat.eq_of_mul_eq_mul_left positive equal
      have single : (parts elements none).length = 0 := by omega
      exact .inr (by omega)
  · rintro ⟨rfl, rfl | few⟩
    · obtain rfl : d = "" := by simpa using d_
      exact empties_vanish elements
    · obtain ⟨element, rfl⟩ := List.length_eq_one_iff.mp
        (Nat.le_antisymm few (List.length_pos_of_mem null))
      obtain rfl := List.mem_singleton.mp null
      rfl

/-- Not reading the delimiter and the NULL string does not show. -/
theorem joins_eq_iff {elements : List (Option String)} {d delim : String}
    {r nullString : Option String} (d_ : d = delim ∨ d = "") (r_ : r = nullString ∨ r = none) :
    d.intercalate (parts elements r) = delim.intercalate (parts elements nullString) ↔
      (d = delim ∨ (parts elements nullString).length ≤ 1) ∧
        (r = nullString ∨ none ∉ elements ∨
          (nullString = some "" ∧ (delim = "" ∨ elements.length ≤ 1))) := by
  by_cases read : r = nullString
  · subst read
    simp [intercalate_inj]
  · obtain rfl := r_.resolve_left read
    by_cases null : none ∈ elements
    · cases nullString with
      | none => exact absurd rfl read
      | some text =>
        rw [dropped_eq_iff d_ null]
        have number : (parts elements (some text)).length = elements.length := by simp [parts_some]
        constructor
        · rintro ⟨rfl, rfl | few⟩
          · exact ⟨.inl (by simpa using d_), .inr (.inr ⟨rfl, .inl rfl⟩)⟩
          · exact ⟨.inr (by omega), .inr (.inr ⟨rfl, .inr few⟩)⟩
        · rintro ⟨-, none_ | some_ | ⟨text_, rest⟩⟩
          · exact absurd none_ read
          · exact absurd null some_
          · exact ⟨Option.some.inj text_, rest⟩
    · rw [parts_of_no_null null none nullString, intercalate_inj]
      simp [null]

/-! ## The arms -/

@[simp] theorem TextArgument.at_alone (i : Nat) (v : TextArgument) : (v.alone i).at 0 = v.at i := by
  cases v <;> rfl

@[simp] theorem TextArgument.constant_alone (i : Nat) (v : TextArgument) :
    (v.alone i).Constant ↔ v.Constant := by
  cases v <;> rfl

@[simp] theorem ArrayArgument.at_alone (i : Nat) (a : ArrayArgument) :
    (a.alone i).at 0 = a.at i := by
  cases a <;> simp [ArrayArgument.alone, ArrayArgument.at]

@[simp] theorem ArrayArgument.constant_alone (i : Nat) (a : ArrayArgument) :
    (a.alone i).Constant ↔ a.Constant := by
  cases a <;> rfl

namespace ScalarFunctionArgs

variable {args : ScalarFunctionArgs}

/-- A delimiter that is not null is read or taken for empty. -/
theorem delim_read {i : Nat} {delim : String} (here : args.delimiter.at i = some delim) :
    (args.delim = delim ∨ args.delim = "") ∧
      (args.delim = delim ↔ args.delimiter.Constant ∨ delim = "") := by
  unfold ScalarFunctionArgs.delim
  cases given : args.delimiter with
  | scalar value =>
    rw [given] at here
    obtain rfl : value = some delim := here
    simp [TextArgument.Constant]
  | array values => simp [TextArgument.Constant, eq_comm]

/-- A NULL string is read or taken for none. -/
theorem nullRep_read (args : ScalarFunctionArgs) (i : Nat) :
    (args.nullRep = args.nullStringAt i ∨ args.nullRep = none) ∧
      (args.nullRep = args.nullStringAt i ↔
        (∀ v ∈ args.nullString, v.Constant) ∨ args.nullStringAt i = none) := by
  unfold nullRep nullStringAt
  cases args.nullString with
  | none => simp
  | some v => cases v <;> simp [TextArgument.Constant, TextArgument.at, eq_comm]

/-- What the code makes of a list. -/
def joined (args : ScalarFunctionArgs) (row : Option (List (Option String))) : Option String :=
  row.map fun elements => args.delim.intercalate (parts elements args.nullRep)

theorem joinListElements_eq (column : ListArray (Option String)) :
    joinListElements column args.delim args.nullRep =
      .array ((List.range column.len).map fun i => args.joined (column.row i)) := by
  unfold joinListElements ScalarFunctionArgs.joined ListArray.row
  congr 2
  funext i
  split <;> rfl

/-- A row is joined as PostgreSQL does exactly if what is read of it is all that shows. -/
theorem joined_eq_iff (args : ScalarFunctionArgs) (i : Nat) (row : Option (List (Option String))) :
    args.joined row = pgArrayToString (.list row) (args.delimiter.at i) (args.nullStringAt i) ↔
      ∀ elements, row = some elements → args.RowReads i elements := by
  cases row with
  | none => simp [ScalarFunctionArgs.joined, pgArrayToString]
  | some elements =>
    simp only [ScalarFunctionArgs.joined, Option.map_some, Option.some.injEq, forall_eq', RowReads]
    cases here : args.delimiter.at i with
    | none => simp [pgArrayToString]
    | some delim =>
      obtain ⟨read, exact_⟩ := delim_read here
      obtain ⟨read', exact'⟩ := args.nullRep_read i
      simp only [pgArrayToString, Option.some.injEq, exists_eq_left', joins_eq_iff read read',
        exact_, exact', or_assoc]

/-- The rows of lists are right exactly if each is. -/
theorem lists_right_iff {rowOf : Nat → Option (List (Option String))}
    (lists : ∀ i, args.array.at i = .list (rowOf i)) :
    (∀ i < args.numberRows, args.joined (rowOf i) = args.pgRow i) ↔ args.ListsRead := by
  refine forall_congr' fun i => imp_congr_right fun _ => ?_
  rw [pgRow, lists, joined_eq_iff]
  simp

theorem column_right_iff {column : ListArray (Option String)}
    (length : column.len = args.numberRows)
    (ran : args.invoke = .ok (joinListElements column args.delim args.nullRep))
    (lists : ∀ i, args.array.at i = .list (column.row i)) (varying : ¬ args.array.Constant) :
    args.Right ↔ args.ListsRead := by
  rw [← lists_right_iff lists, Right, ran, joinListElements_eq, length]
  simp [Yields, AllConstant, varying, eq_comm]

theorem constant_right_iff {column : ListArray (Option String)} {one : column.len = 1}
    (given : args.array = .listScalar column one) :
    args.Right ↔ args.ListsRead := by
  have ran : args.invoke = .ok (.scalar (args.joined (column.row 0))) := by
    simp only [invoke, given, ScalarFunctionArgs.joined, ListArray.row]
    split <;> rfl
  have lists : ∀ i, args.array.at i = .list (column.row 0) := by simp [given, ArrayArgument.at]
  have rows : (List.range args.numberRows).map args.pgRow =
      List.replicate args.numberRows (args.joined (column.row 0)) ↔
        ∀ i < args.numberRows, args.joined (column.row 0) = args.pgRow i := by
    simp only [List.eq_replicate_iff, List.length_map, List.length_range, true_and, List.mem_map,
      List.mem_range]
    constructor
    · exact fun all i inside => (all _ ⟨i, inside, rfl⟩).symm
    · rintro all _ ⟨i, inside, rfl⟩
      exact (all i inside).symm
  rw [← lists_right_iff lists, Right, ran, ← rows]
  simp [Yields]

theorem right_iff (args : ScalarFunctionArgs) : args.Right ↔ args.Readable := by
  have length := args.array_rows
  unfold Readable
  cases given : args.array with
  | list column =>
    rw [given] at length
    exact column_right_iff length (by simp [invoke, given]) (by simp [given, ArrayArgument.at])
      (by simp [given, ArrayArgument.Constant])
  | largeList column =>
    rw [given] at length
    exact column_right_iff length (by simp [invoke, given]) (by simp [given, ArrayArgument.at])
      (by simp [given, ArrayArgument.Constant])
  | strings values =>
    rw [given] at length
    refine iff_of_true ⟨.array values, by simp [invoke, given], .inl ⟨length, ?_⟩⟩ trivial
    refine List.ext_getElem (by simpa using length.symm) fun i _ inside => ?_
    simp [pgRow, given, ArrayArgument.at, pgArrayToString, List.getD_eq_getElem?_getD, inside]
  | listScalar column one => exact constant_right_iff given
  | utf8 value =>
    cases value with
    | none => simp [Right, invoke, given]
    | some text =>
      have rows : (List.range args.numberRows).map args.pgRow =
          List.replicate args.numberRows (some text) := by
        simp [List.eq_replicate_iff, pgRow, given, ArrayArgument.at, pgArrayToString]
      have alone : 1 = args.numberRows ∧
          List.replicate args.numberRows (some text) = [some text] ↔ args.numberRows = 1 := by
        constructor
        · exact fun h => h.1.symm
        · intro one
          simp [one]
      simp [Right, invoke, given, rows, Yields, alone, or_comm]

/-- Cut down to one of its rows, a call is read as in all of them. -/
theorem rowReads_atRow (i : Nat) (elements : List (Option String)) :
    (args.atRow i).RowReads 0 elements ↔ args.RowReads i elements := by
  have nullString : (args.atRow i).nullStringAt 0 = args.nullStringAt i := by
    simp [nullStringAt, atRow, Option.bind_map, Function.comp_def]
  simp only [RowReads, nullString]
  simp [atRow]

theorem readable_atRow (readable : args.Readable) {i : Nat} (inside : i < args.numberRows) :
    (args.atRow i).Readable := by
  have lists (read : args.ListsRead) : (args.atRow i).ListsRead := by
    intro j first elements here
    obtain rfl : j = 0 := Nat.lt_one_iff.mp first
    rw [rowReads_atRow]
    exact read i inside elements (by simpa [atRow] using here)
  unfold Readable at readable ⊢
  cases given : args.array with
  | utf8 value =>
    rw [given] at readable
    simp only [atRow, given, ArrayArgument.alone]
    exact ⟨readable.1, .inr trivial⟩
  | strings values => simp [atRow, given, ArrayArgument.alone]
  | _ =>
    rw [given] at readable
    simpa [atRow, given, ArrayArgument.alone] using lists readable

/-- Every row is PostgreSQL's, within the call and by itself, exactly if nothing shows of what is
read of constants only, and a text that is constant is not null and alone where columns vary. -/
theorem array_to_string_right_iff (args : ScalarFunctionArgs) : args.RowWise ↔ args.Readable := by
  constructor
  · intro rowWise
    exact args.right_iff.mp rowWise.right
  · intro readable
    refine ⟨args.right_iff.mpr readable, fun i inside => ⟨?_, ?_⟩⟩
    · simp [pgRow, nullStringAt, atRow, Option.bind_map, Function.comp_def]
    · exact right_iff _ |>.mpr (readable_atRow readable inside)

end ScalarFunctionArgs

def varyingDelimiter : ScalarFunctionArgs where
  array := .list (.single (some [some "a", some "b"]))
  delimiter := .array [some ","]
  nullString := none
  numberRows := 1
  array_rows := rfl
  delimiter_rows := rfl
  nullString_rows _ member := absurd member (Option.not_mem_none _)

/-- A delimiter that is a column is not read. -/
theorem varying_delimiter_lost : ¬ varyingDelimiter.RowWise := by
  intro rowWise
  have lists : varyingDelimiter.ListsRead := varyingDelimiter.right_iff.mp rowWise.right
  obtain ⟨delim, here, constant | empty | few, -⟩ :=
    lists 0 (by decide) [some "a", some "b"] (by simp [varyingDelimiter, ArrayArgument.at])
  · exact constant
  · obtain rfl := Option.some.inj here
    exact absurd empty (by decide)
  · exact absurd few (by decide)

example : (joinListElements (.single (some [some "a", none, some "c"])) ", " (some "*")) =
    .array [some "a, *, c"] := by decide

end PgCatalog.UserFunctions
