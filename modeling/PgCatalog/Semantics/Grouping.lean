import PgCatalog.Semantics.Rows

/-! Grouping keys that make no difference: grouping by a key again leaves every group as it is. -/
namespace PgCatalog.Semantics

open Sql Library

theorem keepFirst_sub {A : Type} {same : A → A → Bool} {b : A} :
    ∀ {xs : List A}, b ∈ Engine.keepFirst same xs → b ∈ xs
  | [], member => nomatch member
  | a :: rest, member => by
    obtain rfl | later := List.mem_cons.mp member
    · exact List.mem_cons_self
    · exact List.mem_cons_of_mem _ (keepFirst_sub (List.mem_filter.mp later).1)

theorem keepFirst_map {A B : Type} {sameA : A → A → Bool} {sameB : B → B → Bool} {g : A → B} :
    ∀ {xs : List A}, (∀ a ∈ xs, ∀ b ∈ xs, sameB (g a) (g b) = sameA a b) →
      Engine.keepFirst sameB (xs.map g) = (Engine.keepFirst sameA xs).map g
  | [], _ => rfl
  | a :: rest, agree => by
    have later := @keepFirst_map A B sameA sameB g rest fun x hx y hy =>
      agree x (List.mem_cons_of_mem _ hx) y (List.mem_cons_of_mem _ hy)
    rw [List.map_cons, Engine.keepFirst, Engine.keepFirst, later, List.filter_map, List.map_cons]
    refine congrArg (g a :: ·) (congrArg (List.map g) (List.filter_congr fun b member => ?_))
    rw [Function.comp_apply, agree a List.mem_cons_self b (List.mem_cons_of_mem _ (keepFirst_sub member))]

/-- Of a class of equals the first is kept, alone. -/
theorem keepFirst_class {A : Type} {same : A → A → Bool} {inside : A → Bool} {xs : List A}
    (within : ∀ a ∈ xs, ∀ b ∈ xs, inside b = true → same a b = inside a) :
    (Engine.keepFirst same xs).filter inside = (xs.filter inside).take 1 := by
  induction xs with
  | nil => rfl
  | cons a rest ih =>
    have later := ih fun x first y second =>
      within x (List.mem_cons_of_mem _ first) y (List.mem_cons_of_mem _ second)
    have others : ∀ b ∈ Engine.keepFirst same rest, inside b = true → same a b = inside a :=
      fun b member => within a List.mem_cons_self b (List.mem_cons_of_mem _ (keepFirst_sub member))
    rw [Engine.keepFirst, List.filter_cons, List.filter_cons]
    cases first : inside a with
    | true =>
      rw [if_pos rfl, if_pos rfl, List.take_succ_cons, List.take_zero, List.filter_filter]
      congr 1
      apply List.filter_eq_nil_iff.mpr
      intro b member both
      obtain ⟨held, apart⟩ := (Bool.and_eq_true _ _).mp both
      rw [others b member held, first] at apart
      cases apart
    | false =>
      rw [if_neg Bool.false_ne_true, if_neg Bool.false_ne_true, ← later, List.filter_filter]
      apply List.filter_congr
      intro b member
      cases held : inside b with
      | false => rfl
      | true => rw [others b member held, first]; rfl

section
variable {D : Type}

/-- What GROUP BY relies on: rows are compared value by value, and an expression that counts as
one that counts as a key counts as that key. -/
structure LawfulKeys (E : Engine D) : Prop where
  sameRow : ∃ same : D → D → Bool, ∀ xs ys : List D, xs.length = ys.length →
    E.sameRow xs ys = (xs.zip ys).all fun pair => same pair.1 pair.2
  sameExpr_trans : ∀ x y z, E.sameExpr x y = true → E.sameExpr y z = true → E.sameExpr x z = true

variable (E : Engine D)

/-- Whether an expression is grouped by: one of the keys is the same expression, and has its
value in every row. -/
def IsKey (s : Scope D) (t : Table D) (keys : List (Expr × Meaning D))
    (x : Expr × Meaning D) : Prop :=
  ∃ key ∈ keys, E.sameExpr key.1 x.1 = true ∧ ∀ cells ∈ t.rows,
    key.2.value (s.under (.row t.columns cells)) = x.2.value (s.under (.row t.columns cells))

/-- What a group's frame reads for an expression. -/
def keyValue (keys : List (Expr × Meaning D)) (values : List D) (e : Expr) : Option D :=
  (((keys.map (·.1)).zip values).find? fun pair => E.sameExpr pair.1 e).map (·.2)

/-- The values of the keys in a row. -/
def keyValues (keys : List (Expr × Meaning D)) (s : Scope D) (columns : List Column)
    (cells : List D) : Option (List D) :=
  keys.mapM fun key : Expr × Meaning D => key.2.value (s.under (.row columns cells))

/-- The groups by given keys, at least one. -/
def groupsBy (keys : List (Expr × Meaning D)) (s : Scope D) (t : Table D) :
    Option (List (Frame D)) :=
  (t.rows.mapM fun cells => (keyValues keys s t.columns cells).map fun values =>
    (values, cells)).map fun rows =>
      (Engine.keepFirst E.sameRow (rows.map (·.1))).map fun values =>
        .group t.columns ((rows.filter fun row => E.sameRow values row.1).map (·.2))
          (keyValue E keys values)

theorem groups_eq (c : Clauses D) {s : Scope D} {t : Table D} {keys : List (Expr × Meaning D)}
    (found : c.groupKeys t.columns = some keys) (some_key : keys ≠ []) :
    c.groups E s t = groupsBy E keys s t := by
  have nonempty : keys.isEmpty = false := by
    cases keys with
    | nil => exact absurd rfl some_key
    | cons key rest => rfl
  rw [Clauses.groups, found, Option.bind_some, nonempty]
  rfl

/-- Values taken again, by their places. -/
def again (places : List Nat) (values : List D) : List D :=
  places.map fun i => (values[i]?).getD E.null

variable {E} {s : Scope D} {t : Table D} {keys more : List (Expr × Meaning D)}

/-- For each of the keys more, the place of one that is the same. -/
theorem places_of_keys (known : ∀ x ∈ more, IsKey E s t keys x) : ∃ places : List Nat,
    List.Forall₂ (fun x i => ∃ key, keys[i]? = some key ∧ E.sameExpr key.1 x.1 = true ∧
      ∀ cells ∈ t.rows, key.2.value (s.under (.row t.columns cells)) =
        x.2.value (s.under (.row t.columns cells))) more places := by
  induction more with
  | nil => exact ⟨[], .nil⟩
  | cons x rest ih =>
    obtain ⟨first, later⟩ := List.forall_mem_cons.mp known
    obtain ⟨places, beside⟩ := ih later
    obtain ⟨key, member, same⟩ := first
    obtain ⟨i, place⟩ := List.mem_iff_getElem?.mp member
    exact ⟨i :: places, .cons ⟨key, place, same⟩ beside⟩

section
variable {places : List Nat}
  (beside : List.Forall₂ (fun x i => ∃ key, keys[i]? = some key ∧ E.sameExpr key.1 x.1 = true ∧
    ∀ cells ∈ t.rows, key.2.value (s.under (.row t.columns cells)) =
      x.2.value (s.under (.row t.columns cells))) more places)
include beside

theorem more_values {cells : List D} (row : cells ∈ t.rows) {values : List D}
    (read : keyValues keys s t.columns cells = some values) :
    keyValues more s t.columns cells = some (again E places values) := by
  have each : keys.map (fun key => key.2.value (s.under (.row t.columns cells))) =
      values.map some := by
    have pairs := mapM_eq_some.mp read
    rw [← List.forall₂_eq_eq_eq, List.forall₂_map_left_iff, List.forall₂_map_right_iff]
    exact pairs
  apply mapM_eq_some.mpr
  rw [again, List.forall₂_map_right_iff]
  refine beside.imp fun x i known => ?_
  obtain ⟨key, place, _, same⟩ := known
  have value := congrArg (·[i]?) each
  simp only [List.getElem?_map, place, Option.map_some] at value
  obtain ⟨d, found, read⟩ := Option.map_eq_some_iff.mp value.symm
  rw [← same cells row, ← read, found, Option.getD_some]

theorem keyValues_append {cells : List D} (row : cells ∈ t.rows) :
    keyValues (keys ++ more) s t.columns cells =
      (keyValues keys s t.columns cells).map fun values => values ++ again E places values := by
  have split : keyValues (keys ++ more) s t.columns cells =
      (keyValues keys s t.columns cells).bind fun values =>
        (keyValues more s t.columns cells).bind fun others => some (values ++ others) :=
    List.mapM_append
  rw [split]
  cases read : keyValues keys s t.columns cells with
  | none => rfl
  | some values => rw [Option.bind_some, more_values beside row read, Option.bind_some, Option.map_some]

omit beside in
theorem keyValues_length {columns : List Column} {cells values : List D}
    (read : keyValues keys s columns cells = some values) : values.length = keys.length :=
  (mapM_eq_some.mp read).length_eq.symm

omit beside in
theorem again_cons (i : Nat) (rest : List Nat) (values : List D) :
    again E (i :: rest) values = (values[i]?).getD E.null :: again E rest values := rfl

/-- What is compared a second time has been compared before. -/
theorem again_same {same : D → D → Bool} {xs ys : List D} (left : xs.length = keys.length)
    (right : ys.length = keys.length)
    (equal : ((xs.zip ys).all fun pair => same pair.1 pair.2) = true) :
    (((again E places xs).zip (again E places ys)).all fun pair => same pair.1 pair.2) = true := by
  induction beside with
  | nil => rfl
  | @cons x i _ _ first _ ih =>
    obtain ⟨key, place, _⟩ := first
    obtain ⟨short, _⟩ := List.getElem?_eq_some_iff.mp place
    have inside : i < xs.length := by omega
    have also : i < ys.length := by omega
    rw [again_cons, again_cons, List.zip_cons_cons, List.all_cons, ih, Bool.and_true,
      List.getElem?_eq_getElem inside, List.getElem?_eq_getElem also, Option.getD_some,
      Option.getD_some]
    apply List.all_eq_true.mp equal
    have bound : i < (xs.zip ys).length := by
      rw [List.length_zip]
      omega
    have pair : (xs.zip ys)[i] = (xs[i], ys[i]) := List.getElem_zip
    rw [← pair]
    exact List.getElem_mem _

theorem sameRow_again (lawful : LawfulKeys E) {xs ys : List D} (left : xs.length = keys.length)
    (right : ys.length = keys.length) :
    E.sameRow (xs ++ again E places xs) (ys ++ again E places ys) = E.sameRow xs ys := by
  obtain ⟨same, componentwise⟩ := lawful.sameRow
  have long : xs.length = ys.length := left.trans right.symm
  have longer : (xs ++ again E places xs).length = (ys ++ again E places ys).length := by
    rw [List.length_append, List.length_append, again, again, List.length_map, List.length_map, long]
  rw [componentwise _ _ longer, componentwise _ _ long, List.zip_append long, List.all_append]
  cases equal : (xs.zip ys).all fun pair => same pair.1 pair.2 with
  | false => rfl
  | true => rw [again_same beside left right equal, Bool.and_true]

/-- A key more finds nothing that the key it repeats does not find. -/
theorem find_again (lawful : LawfulKeys E) {values : List D} (long : values.length = keys.length)
    (e : Expr)
    (absent : (((keys.map (·.1)).zip values).find? fun pair => E.sameExpr pair.1 e) = none) :
    (((more.map (·.1)).zip (again E places values)).find? fun pair => E.sameExpr pair.1 e) =
      none := by
  induction beside with
  | nil => rfl
  | @cons x i _ _ first _ ih =>
    obtain ⟨key, place, same, _⟩ := first
    obtain ⟨inside, found⟩ := List.getElem?_eq_some_iff.mp place
    have other : ¬ E.sameExpr x.1 e = true := by
      intro matched
      have hit := lawful.sameExpr_trans _ _ _ same matched
      have member : (key.1, values[i]) ∈ (keys.map (·.1)).zip values := by
        have bound : i < ((keys.map (·.1)).zip values).length := by
          rw [List.length_zip, List.length_map]
          omega
        have pair : ((keys.map (·.1)).zip values)[i] = (key.1, values[i]) := by
          rw [List.getElem_zip, List.getElem_map, found]
        rw [← pair]
        exact List.getElem_mem _
      exact List.find?_eq_none.mp absent _ member hit
    rw [again_cons, List.map_cons, List.zip_cons_cons]
    exact (List.find?_cons_of_neg (p := fun pair : Expr × D => E.sameExpr pair.1 e) other).trans ih

theorem keyValue_again (lawful : LawfulKeys E) {values : List D}
    (long : values.length = keys.length) :
    keyValue E (keys ++ more) (values ++ again E places values) = keyValue E keys values := by
  funext e
  have apart : (keys.map Prod.fst).length = values.length := by rw [List.length_map, long]
  rw [keyValue, keyValue, List.map_append, List.zip_append apart, List.find?_append]
  cases found : ((keys.map (·.1)).zip values).find? fun pair => E.sameExpr pair.1 e with
  | none => rw [find_again beside lawful long e found]; rfl
  | some pair => rfl

end

/-- Grouping by keys that are grouped by already leaves every group, and what it reads. -/
theorem groupsBy_again (lawful : LawfulKeys E) (known : ∀ x ∈ more, IsKey E s t keys x) :
    groupsBy E (keys ++ more) s t = groupsBy E keys s t := by
  obtain ⟨places, beside⟩ := places_of_keys known
  have valued : (t.rows.mapM fun cells => (keyValues (keys ++ more) s t.columns cells).map
      fun values => (values, cells)) =
      (t.rows.mapM fun cells => (keyValues keys s t.columns cells).map fun values =>
        (values, cells)).map (List.map fun row => (row.1 ++ again E places row.1, row.2)) := by
    refine mapM_map fun cells row => ?_
    rw [keyValues_append beside row, Option.map_map, Option.map_map]
    rfl
  rw [groupsBy, valued, Option.map_map, groupsBy]
  cases read : t.rows.mapM fun cells => (keyValues keys s t.columns cells).map fun values =>
    (values, cells) with
  | none => rfl
  | some rows =>
    have long : ∀ row ∈ rows, row.1.length = keys.length := by
      intro row member
      obtain ⟨cells, _, made⟩ := mem_mapM_some read member
      obtain ⟨values, found, rfl⟩ := Option.map_eq_some_iff.mp made
      exact keyValues_length found
    have agree : ∀ xs ∈ rows.map (·.1), ∀ ys ∈ rows.map (·.1),
        E.sameRow (xs ++ again E places xs) (ys ++ again E places ys) = E.sameRow xs ys := by
      simp only [List.forall_mem_map]
      exact fun first left second right =>
        sameRow_again beside lawful (long first left) (long second right)
    have firsts : (rows.map fun row => (row.1 ++ again E places row.1, row.2)).map (·.1) =
        (rows.map (·.1)).map fun values => values ++ again E places values := by
      rw [List.map_map, List.map_map]
      rfl
    rw [Option.map_some, Option.map_some, Function.comp_apply, firsts, keepFirst_map agree,
      List.map_map]
    refine congrArg some (List.map_congr_left fun values member => ?_)
    obtain ⟨row, inside, rfl⟩ := List.mem_map.mp (keepFirst_sub member)
    rw [Function.comp_apply, keyValue_again beside lawful (long row inside), List.filter_map,
      List.map_map]
    refine congrArg (Frame.group t.columns · _) ?_
    have same : (rows.filter ((fun other => E.sameRow (row.1 ++ again E places row.1) other.1) ∘
        fun other => (other.1 ++ again E places other.1, other.2))) =
        rows.filter fun other => E.sameRow row.1 other.1 := by
      refine List.filter_congr fun other later => ?_
      exact sameRow_again beside lawful (long row inside) (long other later)
    rw [same]
    rfl

end

end PgCatalog.Semantics
