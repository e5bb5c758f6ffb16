import PgCatalog.Catalog.Typed

/-! A scan of any loaded table succeeds on rows its source builds, and serves what the
merge promises. -/
namespace PgCatalog

open Library

open LazyCatalogTableProvider

/-- A plain value fits a `float4`. -/
theorem plain_fits {value : Value} (plain : value.Plain) :
    ∃ narrowed, jsonValueAsF32 value = .ok narrowed := by
  unfold jsonValueAsF32
  cases value with
  | number n =>
    rw [Value.plain_number] at plain
    have small : ¬(2 ^ 128 - 2 ^ 103 ≤ |(n : Rat)|) := by
      rw [not_le, abs_lt]
      constructor
      · exact_mod_cast show -((2 : Int) ^ 128 - 2 ^ 103) < n by omega
      · exact_mod_cast show n < (2 : Int) ^ 128 - 2 ^ 103 by omega
    have large : ¬((n : Rat) ≠ 0 ∧ |(n : Rat)| ≤ 1 / 2 ^ 150) := by
      rintro ⟨nonzero, tiny⟩
      have one : (1 : Rat) ≤ |(n : Rat)| := by
        rw [← Int.cast_abs]
        exact_mod_cast Int.one_le_abs (by exact_mod_cast nonzero)
      have less : (1 : Rat) / 2 ^ 150 < 1 := by norm_num
      exact absurd (one.trans tiny) (not_le.mpr less)
    dsimp only [Value.asF64]
    rw [if_neg small, if_neg large]
    exact ⟨_, rfl⟩
  | float text =>
    obtain rfl := plain
    have zero : decimalValue "0.0" = 0 := by decide +kernel
    dsimp only [Value.asF64]
    have small : ¬((2 : Rat) ^ 128 - 2 ^ 103 ≤ |0|) := by norm_num
    rw [zero, if_neg small, if_neg fun both => both.1 rfl]
    exact ⟨_, rfl⟩
  | _ => exact ⟨_, rfl⟩

theorem mapPgType_loads (pgType : String) :
    mapPgType pgType ∈ [.utf8, .int32, .int64, .float32, .float64, .boolean, .binary,
      .list .utf8, .list .int64, .list .int32] := by
  unfold mapPgType
  dsimp only
  repeat' split
  all_goals decide

/-- Plain values of a loaded type are converted one by one into an array of that type. -/
theorem array_of_loaded {dataType : DataType} (loaded : ∃ pgType, dataType = mapPgType pgType) :
    ∃ convert : Value → Option dataType.Native, ∀ values : List Value,
      (∀ value ∈ values, value.Plain) →
        jsonValuesToArray dataType values = .ok ⟨dataType, values.map convert⟩ := by
  obtain ⟨pgType, rfl⟩ := loaded
  have listed := mapPgType_loads pgType
  generalize mapPgType pgType = dataType at listed
  simp only [List.mem_cons, List.not_mem_nil, or_false] at listed
  obtain rfl | rfl | rfl | rfl | rfl | rfl | rfl | rfl | rfl | rfl := listed
  case inr.inr.inr.inl =>
    refine ⟨fun value => (jsonValueAsF32 value).toOption.join, fun values plain => ?_⟩
    have narrowed : values.mapM jsonValueAsF32 =
        .ok (values.map fun value => (jsonValueAsF32 value).toOption.join) := by
      refine mapM_ok fun value member => ?_
      obtain ⟨narrowed, fits⟩ := plain_fits (plain value member)
      rw [fits]
      rfl
    unfold jsonValuesToArray
    dsimp only
    rw [narrowed]
    rfl
  all_goals exact ⟨_, fun values _ => rfl⟩

/-- The array of one column of some rows, and the cells it gives them. -/
structure ColumnOf (field : Field) (rows : List Row) (array : ArrayRef) : Prop where
  built : jsonValuesToArray field.dataType (rows.map (·.value field.name)) = .ok array
  typed : array.dataType = field.dataType
  sized : array.values.length = rows.length
  cells : ∀ i, (low : i < rows.length) → array.cell i = field.cell rows[i]

theorem column_of_loaded {field : Field} (loaded : ∃ pgType, field.dataType = mapPgType pgType)
    {rows : List Row} (plain : ∀ row ∈ rows, (row.value field.name).Plain) :
    ∃ array, ColumnOf field rows array := by
  obtain ⟨convert, converted⟩ := array_of_loaded loaded
  have each : ∀ value ∈ rows.map (·.value field.name), value.Plain := by
    intro value member
    obtain ⟨row, inside, rfl⟩ := List.mem_map.mp member
    exact plain row inside
  refine ⟨_, converted _ each, rfl, by rw [List.length_map, List.length_map], fun i low => ?_⟩
  have alone := converted [rows[i].value field.name] fun value member =>
    List.mem_singleton.mp member ▸ plain _ (List.getElem_mem low)
  unfold Field.cell
  rw [alone]
  unfold ArrayRef.cell
  refine congrArg (Cell.mk field.dataType) ?_
  dsimp only
  rw [List.map_map, List.getD_eq_getElem _ _ (by rwa [List.length_map]), List.getElem_map]
  rfl

theorem value_plain {table : CatalogTable} {row : Row} (made : RowOf table row)
    (column : String) : (row.value column).Plain := by
  unfold Row.value Row.get
  cases held : row.lookup column with
  | none => trivial
  | some value =>
    obtain ⟨before, after, same, _⟩ := List.lookup_eq_some_iff.mp held
    have member : (column, value) ∈ row := by
      rw [same]
      exact List.mem_append_right _ List.mem_cons_self
    exact made.plain _ member

theorem tryNew_ok {schema : List Field} {columns : List ArrayRef} {n : Nat}
    (some_ : schema ≠ []) (typed : columns.map (·.dataType) = schema.map (·.dataType))
    (sized : ∀ array ∈ columns, array.values.length = n)
    (nullable : ∀ field ∈ schema, field.nullable = true) :
    ∃ batch, RecordBatch.tryNew schema columns = .ok batch ∧ batch.schema = schema ∧
      batch.columns = columns ∧ batch.numRows = n := by
  cases columns with
  | nil => exact absurd (List.map_eq_nil_iff.mp typed.symm) some_
  | cons first rest =>
    have rows := sized first List.mem_cons_self
    have same : ∀ array ∈ first :: rest, array.values.length = first.values.length :=
      fun array member => (sized array member).trans rows.symm
    unfold RecordBatch.tryNew
    dsimp only
    rw [dif_pos typed, dif_pos same]
    split
    · exact ⟨_, rfl, rfl, rfl, rows⟩
    · rename_i invalid
      refine absurd (List.all_eq_true.mpr fun pair member => ?_) invalid
      have named := nullable pair.1 (List.of_mem_zip member).1
      simp only [named, Bool.true_or]

/-- Rows of a loaded schema become one batch, row for row. -/
theorem rowsToRecordBatch_ok {table : CatalogTable} {schema : List Field} (some_ : schema ≠ [])
    (loaded : ∀ field ∈ schema, field.nullable = true ∧ ∃ pgType, field.dataType = mapPgType pgType)
    {rows : List Row} (made : ∀ row ∈ rows, RowOf table row) :
    ∃ batch, rowsToRecordBatch schema rows = .ok batch ∧
      batch.rows = rows.map fun row => schema.map (·.cell row) := by
  let arrayOf (field : Field) : ArrayRef :=
    ((jsonValuesToArray field.dataType (rows.map (·.value field.name))).toOption).getD
      ⟨field.dataType, []⟩
  have column : ∀ field ∈ schema, ColumnOf field rows (arrayOf field) := by
    intro field member
    obtain ⟨array, of_field⟩ := column_of_loaded (loaded field member).2 fun row inside =>
      value_plain (made row inside) field.name
    have same : arrayOf field = array := by
      unfold arrayOf
      rw [of_field.built]
      rfl
    rwa [same]
  have arrays := mapM_ok (g := arrayOf) fun field member => (column field member).built
  have typed : (schema.map arrayOf).map (·.dataType) = schema.map (·.dataType) := by
    rw [List.map_map]
    exact List.map_congr_left fun field member => (column field member).typed
  have sized : ∀ array ∈ schema.map arrayOf, array.values.length = rows.length := by
    intro array member
    obtain ⟨field, inside, rfl⟩ := List.mem_map.mp member
    exact (column field inside).sized
  obtain ⟨batch, built, _, columns, count⟩ :=
    tryNew_ok some_ typed sized fun field member => (loaded field member).1
  refine ⟨batch, ?_, ?_⟩
  · unfold rowsToRecordBatch
    rw [arrays, ok_bind, built]
  · unfold RecordBatch.rows
    rw [columns, count]
    apply List.ext_getElem
    · simp only [List.length_map, List.length_range]
    · intro i low high
      rw [List.length_map] at high
      rw [List.getElem_map, List.getElem_range, List.getElem_map, List.map_map]
      exact List.map_congr_left fun field member => (column field member).cells i high

theorem oid_as_i32 (n : Int32) : jsonValueAsI32 (.oid n) = some n := by
  have low := n.le_toInt
  have high := n.toInt_lt
  have least : Int64.minValue.toInt = -9223372036854775808 := by decide
  have most : Int64.maxValue.toInt = 9223372036854775807 := by decide
  have wide : Int64.minValue.toInt ≤ n.toInt ∧ n.toInt ≤ Int64.maxValue.toInt := by
    rw [least, most]
    omega
  have least32 : Int32.minValue.toInt = -2147483648 := by decide
  have most32 : Int32.maxValue.toInt = 2147483647 := by decide
  have narrow : Int32.minValue.toInt ≤ n.toInt ∧ n.toInt ≤ Int32.maxValue.toInt := by
    rw [least32, most32]
    omega
  have kept : (Int64.ofInt n.toInt).toInt = n.toInt :=
    Int64.toInt_ofInt_of_le wide.1 (Int.lt_of_le_of_lt wide.2 (by decide))
  have widened : (Value.oid n).asI64 = some (Int64.ofInt n.toInt) := if_pos wide
  rw [jsonValueAsI32, widened, Option.bind_some, kept, i32TryFromInt, if_pos narrow,
    Int32.ofInt_toInt]

/-- The cell a key value becomes. -/
theorem key_cell {field : Field} {row : Row}
    (held : KeyValue field.name (row.get field.name))
    (typed : field.dataType = keyColumnType field.name) :
    (∃ n : Int32, row.get field.name = some (.oid n) ∧ keyColumnType field.name = .int32 ∧
        field.cell row = ⟨.int32, some n⟩) ∨
      ∃ s : String, row.get field.name = some (.string s) ∧ keyColumnType field.name = .utf8 ∧
        field.cell row = ⟨.utf8, some s⟩ := by
  unfold KeyValue at held
  unfold Field.cell Row.value
  rw [typed]
  split at held
  · rename_i number
    obtain ⟨n, held⟩ := held
    have back := oid_as_i32 n
    refine .inl ⟨n, held, number, ?_⟩
    rw [held, number]
    exact congrArg (Cell.mk .int32) back
  · rename_i name
    obtain ⟨s, held⟩ := held
    have text : keyColumnType field.name = .utf8 := by
      unfold keyColumnType at name ⊢
      split
      · rename_i number
        rw [if_pos number] at name
        exact absurd rfl name
      · rfl
    refine .inr ⟨s, held, text, ?_⟩
    rw [held, text]
    rfl

/-- The text of a key value is that of the cell it becomes, and the cell is there. -/
theorem key_agrees {field : Field} {row : Row}
    (held : KeyValue field.name (row.get field.name))
    (typed : field.dataType = keyColumnType field.name) :
    (field.cell row).keyComponent = jsonKeyComponent (row.get field.name) := by
  obtain ⟨n, value, _, cell⟩ | ⟨s, value, _, cell⟩ := key_cell held typed
  · rw [cell, value]
    rfl
  · rw [cell, value]
    rfl

/-- Present cells of the two key types have one text only if they are the same. -/
theorem keyComponent_inj {a b : Cell} (typed : a.dataType = b.dataType)
    (key : b.dataType = .int32 ∨ b.dataType = .utf8) (here : a.value.isSome)
    (there : b.value.isSome) (same : a.keyComponent = b.keyComponent) : a = b := by
  obtain ⟨typeA, a⟩ := a
  obtain ⟨typeB, b⟩ := b
  dsimp only at typed key
  obtain rfl := typed
  cases a with
  | none => cases here
  | some x =>
    cases b with
    | none => cases there
    | some y =>
      obtain rfl | rfl := key
      · have equal : x = y := Int32.toInt_inj.mp (Int.repr_injective same)
        rw [equal]
      · have equal : x = y := same
        rw [equal]

theorem duplicateSchema_fresh {schemas : List SchemaDef} {seen : List String}
    (none_ : duplicateSchema schemas seen = none) : Fresh (schemas.map (·.name)) seen := by
  induction schemas generalizing seen with
  | nil => exact fresh_nil seen
  | cons schema rest ih =>
    unfold duplicateSchema at none_
    split at none_
    · cases none_
    · rename_i absent
      rw [List.map_cons, fresh_cons, ← fresh_swap]
      exact ⟨absent, ih none_⟩

/-- The schemas that are fetched have distinct names. -/
theorem fetchSchemas_apart {source : LazyCatalogSource} {database : String}
    {schemas : List SchemaDef} (fetched : fetchSchemas source database = .ok schemas) :
    (schemas.map (·.name)).Nodup := by
  unfold fetchSchemas at fetched
  cases answered : (source.schemas database).fetch with
  | error e => rw [answered] at fetched; cases fetched
  | ok out =>
    rw [answered, ok_bind] at fetched
    split at fetched
    · cases fetched
    · rename_i none_
      obtain rfl := Except.ok.inj fetched
      exact (duplicateSchema_fresh none_).1

section
variable {p : LazyCatalogTableProvider}

theorem shadow_field {column : String} (member : column ∈ p.table.builtinShadowKeyColumns) :
    ∃ field ∈ p.schema, field.name = column ∧ field.dataType = keyColumnType column :=
  p.keyed column (List.mem_append_right _ member)

/-- The one field of a key column, found where the name first stands. -/
theorem shadow_field_at {column : String} (member : column ∈ p.table.builtinShadowKeyColumns) :
    ∃ low : p.schema.findIdx (·.name = column) < p.schema.length,
      p.schema[p.schema.findIdx (·.name = column)].name = column ∧
        p.schema[p.schema.findIdx (·.name = column)].dataType = keyColumnType column := by
  obtain ⟨field, inside, named, typed⟩ := shadow_field member
  have low := (@indexOf_ok p.schema column ⟨field, inside, named⟩).2
  have found : (p.schema[p.schema.findIdx (·.name = column)]).name = column := by
    have first := List.findIdx_getElem (w := low)
    exact of_decide_eq_true first
  have only : p.schema[p.schema.findIdx (·.name = column)] = field :=
    List.inj_on_of_nodup_map p.named (List.getElem_mem low) inside (found.trans named.symm)
  exact ⟨low, found, only ▸ typed⟩

/-- A built-in row's cell in a key column is of the column's type. -/
theorem cellAt_builtin {column : String} (member : column ∈ p.table.builtinShadowKeyColumns)
    {row : List Cell} (inside : row ∈ p.builtinRows) :
    (cellAt p.schema row column).dataType = keyColumnType column := by
  obtain ⟨low, _, typed⟩ := shadow_field_at member
  obtain ⟨batch, captured, here⟩ := List.mem_flatMap.mp inside
  obtain ⟨i, _, rfl⟩ := List.mem_map.mp here
  have same := p.captured batch captured
  have types := batch.typed
  rw [same] at types
  have wide : p.schema.findIdx (·.name = column) < batch.columns.length := by
    rw [columns_length, same]
    exact low
  unfold cellAt
  rw [List.getD_eq_getElem _ _ (by rwa [List.length_map]), List.getElem_map, ← typed]
  have there := congrArg (·[p.schema.findIdx (·.name = column)]?) types
  rw [List.getElem?_map, List.getElem?_map, List.getElem?_eq_getElem wide,
    List.getElem?_eq_getElem low] at there
  exact Option.some.inj there

/-- The cell of a user row in a key column is the one its field makes. -/
theorem cellAt_user {column : String} (member : column ∈ p.table.builtinShadowKeyColumns)
    (row : Row) : ∃ field : Field, field.name = column ∧ field.dataType = keyColumnType column ∧
      cellAt p.schema (p.userCells row) column = field.cell row := by
  obtain ⟨low, named, typed⟩ := shadow_field_at member
  refine ⟨_, named, typed, ?_⟩
  unfold cellAt userCells
  rw [List.getD_eq_getElem _ _ (by rwa [List.length_map]), List.getElem_map]

theorem user_agrees {row : Row} (made : RowOf p.table row) :
    p.shadowKey (p.userCells row) = userRowKey row p.table.builtinShadowKeyColumns := by
  unfold shadowKey keyCells userRowKey
  rw [List.map_map]
  refine List.map_congr_left fun column member => ?_
  obtain ⟨field, rfl, typed, cell⟩ := cellAt_user member row
  rw [Function.comp_apply, cell]
  exact key_agrees (made.keyed _ (List.mem_append_right _ member)) typed

/-- No two user rows that a scan accepts shadow the same rows. -/
theorem shadow_keys_apart {userRows : List Row}
    (built : buildRowsFor p.table p.source p.database = .ok userRows)
    (accepted : ∃ keys, collectUserKeys p.table userRows [] = .ok keys) :
    (userRows.map (userRowKey · p.table.builtinShadowKeyColumns)).Nodup := by
  have identity := ((collectUserKeys_ok_iff _ _ _).mp accepted).1
  by_cases namespace_ : p.table = .pgNamespace
  · rw [namespace_] at built ⊢
    unfold buildRowsFor collectPgNamespaceRows at built
    cases fetched : fetchSchemas p.source p.database with
    | error e => rw [fetched] at built; cases built
    | ok schemas =>
      rw [fetched, ok_bind] at built
      obtain rfl := Except.ok.inj built
      have names := (fetchSchemas_apart fetched).map (f := fun name => [name]) fun a b same =>
        (List.cons.inj same).1
      rw [List.map_map] at names ⊢
      exact names
  · have same : p.table.builtinShadowKeyColumns = p.table.keyColumns := by
      cases table : p.table <;> first | rfl | exact absurd table namespace_
    rwa [same]

theorem keyColumns_some (table : CatalogTable) : table.keyColumns ≠ [] := by
  cases table <;> exact List.cons_ne_nil _ _

theorem schema_some (p : LazyCatalogTableProvider) : p.schema ≠ [] := by
  obtain ⟨column, rest, keys⟩ := List.exists_cons_of_ne_nil (keyColumns_some p.table)
  have member : column ∈ p.table.keyColumns ++ p.table.builtinShadowKeyColumns := by
    rw [keys]
    exact List.mem_cons_self
  obtain ⟨field, inside, _⟩ := p.keyed column member
  exact List.ne_nil_of_mem inside

/-- The built-in batches lose the rows under the user keys, batch by batch. -/
theorem dropped_batches (p : LazyCatalogTableProvider) (userKeys : List (List String)) :
    ∃ kept, (p.builtinBatches.mapM fun builtin => dropBuiltinRowsShadowedByUsers builtin p.schema
        p.table.builtinShadowKeyColumns userKeys) = .ok kept ∧
      kept.flatMap (·.rows) = p.builtinRows.filter fun row => p.shadowKey row ∉ userKeys := by
  have each : ∀ batch ∈ p.builtinBatches, ∃ out,
      dropBuiltinRowsShadowedByUsers batch p.schema p.table.builtinShadowKeyColumns userKeys =
        .ok out ∧ out.rows = batch.rows.filter fun row => p.shadowKey row ∉ userKeys := by
    intro batch member
    have same := p.captured batch member
    have known : ∀ column ∈ p.table.builtinShadowKeyColumns,
        ∃ field ∈ batch.schema, field.name = column := by
      intro column key
      obtain ⟨field, inside, named, _⟩ := shadow_field key
      exact ⟨field, same ▸ inside, named⟩
    obtain ⟨out, dropped, rows⟩ := drop_rows p.table.builtinShadowKeyColumns userKeys known
    rw [same] at dropped rows
    refine ⟨out, dropped, ?_⟩
    rw [rows]
    refine List.filter_congr fun row _ => ?_
    unfold shadowKey keyCells
    rw [List.map_map]
    rfl
  unfold builtinRows
  generalize p.builtinBatches = batches at each ⊢
  induction batches with
  | nil => exact ⟨[], rfl, rfl⟩
  | cons batch rest ih =>
    obtain ⟨out, dropped, rows⟩ := each batch List.mem_cons_self
    obtain ⟨kept, later, others⟩ :=
      ih fun other member => each other (List.mem_cons_of_mem _ member)
    refine ⟨out :: kept, ?_, ?_⟩
    · rw [List.mapM_cons, dropped, ok_bind, later, ok_bind]
      rfl
    · rw [List.flatMap_cons, List.flatMap_cons, List.filter_append, rows, others]

/-- Every accepted scan of a loaded table serves the built-in rows that no user row shadows,
then the user rows, and no two rows under one key. -/
theorem scan_merges (p : LazyCatalogTableProvider)
    (distinct : (p.builtinRows.map p.shadowKey).Nodup)
    {userRows : List Row} (built : buildRowsFor p.table p.source p.database = .ok userRows)
    (accepted : ∃ keys, collectUserKeys p.table userRows [] = .ok keys) :
    ∃ out, p.scan = .ok out ∧ p.Merges userRows out := by
  have made := built_rowOf built
  have agree : ∀ user ∈ userRows, p.shadowKey (p.userCells user) =
      userRowKey user p.table.builtinShadowKeyColumns := fun user member =>
    user_agrees (made user member)
  have keys : userRows.map (userRowKey · p.table.builtinShadowKeyColumns) =
      userRows.map fun user => p.shadowKey (p.userCells user) :=
    List.map_congr_left fun user member => (agree user member).symm
  obtain ⟨userBatch, converted, userRows_⟩ := rowsToRecordBatch_ok (schema_some p) p.loaded made
  obtain ⟨kept, dropped, rows⟩ := dropped_batches p
    (userRows.map (userRowKey · p.table.builtinShadowKeyColumns))
  have served : (kept ++ [userBatch]).flatMap (·.rows) =
      (p.builtinRows.filter fun row =>
        p.shadowKey row ∉ userRows.map fun user => p.shadowKey (p.userCells user)) ++
        userRows.map p.userCells := by
    rw [List.flatMap_append, rows, keys, List.flatMap_cons, List.flatMap_nil, List.append_nil,
      userRows_]
    rfl
  obtain ⟨seen, checked⟩ := accepted
  refine ⟨kept ++ [userBatch], ?_, served, ?_, ?_, agree, ?_⟩
  · unfold scan
    rw [built, ok_bind, checked, ok_bind, converted, ok_bind]
    dsimp only
    rw [dropped, ok_bind]
    rfl
  · rw [served, List.map_append, List.nodup_append]
    refine ⟨distinct.sublist (List.Sublist.map _ List.filter_sublist), ?_, ?_⟩
    · have apart := shadow_keys_apart built ⟨seen, checked⟩
      rw [keys] at apart
      rwa [List.map_map]
    · intro a first b second same
      obtain ⟨row, inside, rfl⟩ := List.mem_map.mp first
      obtain ⟨_, below, rfl⟩ := List.mem_map.mp second
      obtain ⟨user, member, rfl⟩ := List.mem_map.mp below
      have absent := of_decide_eq_true (List.mem_filter.mp inside).2
      exact absent (List.mem_map.mpr ⟨user, member, same.symm⟩)
  · rintro rfl
    have unchanged : (p.builtinBatches.mapM fun builtin => dropBuiltinRowsShadowedByUsers builtin
        p.schema p.table.builtinShadowKeyColumns []) = .ok (p.builtinBatches.map id) :=
      mapM_ok fun _ _ => rfl
    have same := Except.ok.inj (dropped.symm.trans unchanged)
    rw [List.map_id] at same
    exact ⟨userBatch, by rw [same], userRows_⟩
  · intro row inside present user member
    constructor
    · intro same
      refine List.map_congr_left fun column key => ?_
      have texts := List.map_inj_left.mp ((List.map_map ..).symm.trans (same.trans
        (List.map_map ..))) column key
      have here := present _ (List.mem_map.mpr ⟨column, key, rfl⟩)
      have typed := cellAt_builtin key inside
      obtain ⟨field, rfl, type, cell⟩ := cellAt_user key user
      have held := (made user member).keyed _ (List.mem_append_right _ key)
      dsimp only [Function.comp_apply] at texts
      rw [cell] at texts ⊢
      obtain ⟨n, _, number, becomes⟩ | ⟨s, _, name, becomes⟩ := key_cell held type
      · rw [becomes] at texts ⊢
        exact keyComponent_inj (typed.trans number) (.inl rfl) here rfl texts
      · rw [becomes] at texts ⊢
        exact keyComponent_inj (typed.trans name) (.inr rfl) here rfl texts
    · intro same
      exact congrArg (List.map (·.keyComponent)) same

end

def namespaceFields : List Field := [⟨"oid", .int32, true⟩, ⟨"nspname", .utf8, true⟩]

/-- Two built-in schemas, and a source whose `public` has a number of its own. -/
def namespaceProvider : LazyCatalogTableProvider where
  table := .pgNamespace
  schema := namespaceFields
  builtinBatches := [{
    schema := namespaceFields
    columns := [⟨.int32, [some (11 : Int32), some (2200 : Int32)]⟩,
      ⟨.utf8, [some "pg_catalog", some "public"]⟩]
    numRows := 2
    typed := rfl
    sized := by
      intro array member
      simp only [List.mem_cons, List.not_mem_nil, or_false] at member
      obtain rfl | rfl := member <;> rfl }]
  source := {
    databases := .nothing
    schemas := fun _ => .once [{ oid := 16384, name := "public" }]
    relations := fun _ _ => .nothing
    columns := fun _ _ _ => .nothing }
  database := "app"
  loaded := by
    intro field member
    simp only [namespaceFields, List.mem_cons, List.not_mem_nil, or_false] at member
    obtain rfl | rfl := member
    · exact ⟨rfl, "int", by decide +kernel⟩
    · exact ⟨rfl, "varchar(64)", by decide +kernel⟩
  named := by decide
  keyed := by
    intro column member
    simp only [CatalogTable.keyColumns, CatalogTable.builtinShadowKeyColumns, List.cons_append,
      List.nil_append, List.mem_cons, List.not_mem_nil, or_false] at member
    obtain rfl | rfl := member
    · exact ⟨⟨"oid", .int32, true⟩, List.mem_cons_self, rfl, rfl⟩
    · exact ⟨⟨"nspname", .utf8, true⟩, List.mem_cons_of_mem _ List.mem_cons_self, rfl, rfl⟩
  captured := by
    intro batch member
    obtain rfl := List.mem_singleton.mp member
    rfl

/-- The source's `public` replaces the built-in one. -/
theorem namespace_scan_merges : ∃ out, namespaceProvider.scan = .ok out ∧
    namespaceProvider.Merges [buildPgNamespaceRow { oid := 16384, name := "public" }] out :=
  scan_merges namespaceProvider (by decide) rfl ⟨_, rfl⟩

end PgCatalog
