import PgCatalog.Library.Interleaving

/-! `ScanRecordingMemTable::insert_into`: the rows of an in-memory catalog table under any
number of inserts, whose lock-protected sections may come in any order. -/
namespace PgCatalog.DbTable

open Library

/-- `Replace` is handled like `Append`. -/
inductive InsertOp where
  | append
  | overwrite
  | replace
  deriving DecidableEq, Repr

/-- One call: the operation, and what collecting the input plan gives. -/
structure Insert (B ε : Type) where
  op : InsertOp
  input : Except ε (List B)

/-- What the table uses of Arrow: the rows of a batch, and the concatenation of batches, which
fails where their schema is not the table's. -/
structure Arrow (B R ε : Type) where
  rows : B → List R
  concatBatches : List B → Except ε B
  rows_concat : ∀ bs b, concatBatches bs = .ok b → rows b = bs.flatMap rows

section
variable {B R ε : Type} (arrow : Arrow B R ε)

/-- What an insert makes up to write: the new batches, for an append behind the first batch of
the partition. -/
def readSection (insert : Insert B ε) (guard : List B) : Except ε B := do
  let newBatches ← insert.input
  if insert.op = .overwrite then arrow.concatBatches newBatches
  else
    match guard with
    | [] => arrow.concatBatches newBatches
    | first :: _ => arrow.concatBatches (first :: newBatches)

/-- The partition is cleared and holds the merged batch alone. -/
def writeSection (merged : B) (_guard : List B) : List B := [merged]

/-- The sections of the calls of a list, each call by its place. -/
def insertInto (inserts : List (Insert B ε)) :
    Interleaving.Sections (Fin inserts.length) (List B) B ε where
  read k guard := readSection arrow (inserts.get k) guard
  write := writeSection

/-- The rows of the partition. -/
def tableRows (partition : List B) : List R := partition.flatMap arrow.rows

/-- What an insert does to the rows, alone. -/
def inserted (rows : List R) (insert : Insert B ε) : List R :=
  match insert.input with
  | .error _ => rows
  | .ok newBatches =>
    if insert.op = .overwrite then tableRows arrow newBatches
    else rows ++ tableRows arrow newBatches

variable (inserts : List (Insert B ε)) (data : List B)

/-- The table after a schedule, `data` its initial batches. -/
def tableAfter (schedule : List (Fin inserts.length)) :
    Interleaving.Shared (Fin inserts.length) (List B) B :=
  Interleaving.after (insertInto arrow inserts) (Interleaving.start data) schedule

/-- The rows are those of the inserts that are done, run one after another in some order. -/
def Serial (schedule : List (Fin inserts.length)) : Prop :=
  ∃ order : List (Fin inserts.length), order.Nodup ∧
    (∀ k, k ∈ order ↔ (tableAfter arrow inserts data schedule).progress k = .done) ∧
    tableRows arrow (tableAfter arrow inserts data schedule).state =
      (order.map inserts.get).foldl (inserted arrow) (tableRows arrow data)

/-- The same, the order being that of the write sections. -/
def InOrderOfWrites (schedule : List (Fin inserts.length)) : Prop :=
  tableRows arrow (tableAfter arrow inserts data schedule).state =
    ((Interleaving.written (insertInto arrow inserts) (Interleaving.start data) schedule).map
      inserts.get).foldl (inserted arrow) (tableRows arrow data)

/-- From its read section to its write section, an append that has a batch to write finds in the
table the rows of the first batch it read, and no others. -/
def Undisturbed (schedule : List (Fin inserts.length)) : Prop :=
  ∀ before between k, before ++ k :: between ++ [k] <+: schedule → k ∉ before → k ∉ between →
    (inserts.get k).op ≠ .overwrite → ∀ merged,
      readSection arrow (inserts.get k) (tableAfter arrow inserts data before).state = .ok merged →
        tableRows arrow (tableAfter arrow inserts data (before ++ k :: between)).state =
          tableRows arrow ((tableAfter arrow inserts data before).state.take 1)

end

section
variable {B R ε : Type} {arrow : Arrow B R ε} {insert : Insert B ε} {merged : B}

/-- An insert writes what it does to the rows of the first batch. -/
theorem rows_of_readSection {guard : List B} (read : readSection arrow insert guard = .ok merged) :
    arrow.rows merged = inserted arrow (tableRows arrow (guard.take 1)) insert := by
  unfold readSection at read
  unfold inserted
  cases input : insert.input with
  | error e =>
    rw [input] at read
    cases read
  | ok newBatches =>
    simp only [input, bind, Except.bind] at read
    split at read
    · next overwrites =>
      simp only [overwrites, if_true, arrow.rows_concat _ _ read, tableRows]
    · next overwrites =>
      simp only [overwrites, if_false]
      cases guard with
      | nil => simp [arrow.rows_concat _ _ read, tableRows]
      | cons first rest => simp [arrow.rows_concat _ _ read, tableRows]

theorem inserted_inj {rows other : List R} {guard : List B}
    (read : readSection arrow insert guard = .ok merged) :
    inserted arrow rows insert = inserted arrow other insert ↔
      (insert.op ≠ .overwrite → rows = other) := by
  unfold inserted
  cases input : insert.input with
  | error e => simp [readSection, input, bind, Except.bind] at read
  | ok newBatches =>
    by_cases overwrites : insert.op = .overwrite
    · simp [overwrites]
    · simp [overwrites]

theorem serial_of_in_order {inserts : List (Insert B ε)} {data : List B}
    {schedule : List (Fin inserts.length)}
    (ordered : InOrderOfWrites arrow inserts data schedule) :
    Serial arrow inserts data schedule :=
  ⟨_, Interleaving.nodup_written schedule,
    fun _ => Interleaving.mem_written (by simp [Interleaving.start]), ordered⟩

/-- At every moment the rows follow the inserts in the order of their write sections exactly if
no append is disturbed; then no insert loses a row, and one that fails changes none. -/
theorem insert_into_serial (arrow : Arrow B R ε) (inserts : List (Insert B ε)) (data : List B)
    (schedule : List (Fin inserts.length)) :
    ((∀ now, now <+: schedule → InOrderOfWrites arrow inserts data now) ↔
        Undisturbed arrow inserts data schedule) ∧
      (Undisturbed arrow inserts data schedule → ∀ now, now <+: schedule →
        Serial arrow inserts data now ∧ ∀ k,
          (tableAfter arrow inserts data (now ++ [k])).progress k = .failed →
            (tableAfter arrow inserts data (now ++ [k])).state =
              (tableAfter arrow inserts data now).state) := by
  have exactly : (∀ now, now <+: schedule → InOrderOfWrites arrow inserts data now) ↔
      Undisturbed arrow inserts data schedule := by
    unfold InOrderOfWrites
    simp only [List.foldl_map]
    refine (Interleaving.in_write_order_iff (tableRows arrow)
      fun rows k => inserted arrow rows (inserts.get k)).trans ?_
    have wrote : ∀ merged guard, tableRows arrow ((insertInto arrow inserts).write merged guard) =
        arrow.rows merged := fun merged _ => List.flatMap_singleton ..
    simp only [wrote]
    constructor
    · intro alone before between k here first later op merged read
      have same := alone _ k here merged (Interleaving.holding_of_read first later read)
      rw [rows_of_readSection read] at same
      exact ((inserted_inj read).mp same op).symm
    · intro undisturbed before k here merged holding
      obtain ⟨early, between, rfl, first, later, read⟩ := Interleaving.held_from_read holding
      rw [rows_of_readSection read]
      exact (inserted_inj read).mpr fun op =>
        (undisturbed early between k here first later op merged read).symm
  refine ⟨exactly, fun undisturbed now here => ⟨?_, fun k failed => ?_⟩⟩
  · exact serial_of_in_order (exactly.mpr undisturbed now here)
  · unfold tableAfter at failed ⊢
    rw [Interleaving.after_append] at failed ⊢
    exact Interleaving.state_of_failed failed

end

/-- Batches that are their rows. -/
def plainArrow : Arrow (List Nat) Nat String where
  rows := id
  concatBatches bs := .ok bs.flatten
  rows_concat _ _ same := by
    cases same
    simp

theorem count_of_appends {inserts : List (Insert (List Nat) String)} (rows : List Nat)
    (appends : ∀ insert ∈ inserts, ∃ n, insert = ⟨.append, .ok [[n]]⟩) :
    (inserts.foldl (inserted plainArrow) rows).length = rows.length + inserts.length := by
  induction inserts generalizing rows with
  | nil => rfl
  | cons insert rest ih =>
    obtain ⟨n, rfl⟩ := appends insert List.mem_cons_self
    have later := ih (inserted plainArrow rows ⟨.append, .ok [[n]]⟩)
      fun other member => appends other (List.mem_cons_of_mem _ member)
    rw [List.foldl_cons, later]
    simp [inserted, tableRows, plainArrow]
    omega

theorem not_serial_of_lost {inserts : List (Insert (List Nat) String)} {data : List (List Nat)}
    {schedule : List (Fin inserts.length)}
    (appends : ∀ insert ∈ inserts, ∃ n, insert = ⟨.append, .ok [[n]]⟩)
    (finished : ∀ k, (tableAfter plainArrow inserts data schedule).progress k = .done)
    (lost : (tableRows plainArrow (tableAfter plainArrow inserts data schedule).state).length ≠
      (tableRows plainArrow data).length + inserts.length) :
    ¬Serial plainArrow inserts data schedule := by
  rintro ⟨order, distinct, members, rows⟩
  apply lost
  have everyone : order.length = inserts.length := by
    have perm : order.Perm (List.finRange inserts.length) :=
      (List.perm_ext_iff_of_nodup distinct (List.nodup_finRange _)).mpr fun k => by
        simp [members, finished]
    simpa using perm.length_eq
  rw [rows, count_of_appends, List.length_map, everyone]
  intro insert member
  obtain ⟨k, _, rfl⟩ := List.mem_map.mp member
  exact appends _ (List.get_mem inserts k)

/-- One append to a table of two batches loses the second; of two appends at once the one that
writes first is lost. -/
theorem rows_lost :
    ¬Serial plainArrow [⟨.append, .ok [[2]]⟩] [[0], [1]] [0, 0] ∧
      ¬Serial plainArrow [⟨.append, .ok [[1]]⟩, ⟨.append, .ok [[2]]⟩] [[0]] [0, 1, 0, 1] := by
  constructor
  · apply not_serial_of_lost
    · simp
    · decide
    · decide
  · apply not_serial_of_lost
    · simp
    · decide
    · decide

end PgCatalog.DbTable
