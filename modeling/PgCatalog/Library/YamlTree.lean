import PgCatalog.Library.YamlTokens

/-! Building the tree of a block document from its tokens, and the tokens of a tree laid out. -/
namespace PgCatalog.Library.Yaml

/-- Whether the tokens go on with a node deeper than the column. -/
def deeper (column : Nat) : List Token → Bool
  | .entry c :: _ => column < c
  | .key c _ :: _ => column < c
  | .scalar _ :: _ => true
  | [] => false

/-- A key may have a sequence in its own column. -/
def deeperValue (column : Nat) : List Token → Bool
  | .entry c :: _ => column ≤ c
  | rest => deeper column rest

mutual
/-- The node at the head of the tokens, and what follows it. -/
def node : Nat → List Token → Option (Node × List Token)
  | 0, _ => none
  | _, [] => none
  | _ + 1, .scalar value :: rest => some (value, rest)
  | fuel + 1, .entry column :: rest =>
    (items fuel column (.entry column :: rest)).map fun (items, rest) => (.array items, rest)
  | fuel + 1, .key column text :: rest =>
    (pairs fuel column (.key column text :: rest)).bind fun (pairs, rest) =>
      if (pairs.map Prod.fst).Nodup then some (.object pairs, rest) else none

/-- The entries in a column; one with nothing behind its dash is null. -/
def items : Nat → Nat → List Token → Option (List Node × List Token)
  | 0, _, _ => none
  | fuel + 1, column, .entry c :: rest =>
    if c = column then
      (if deeper column rest then node fuel rest else some (.null, rest)).bind
        fun (item, rest) => (items fuel column rest).map fun (more, rest) => (item :: more, rest)
    else some ([], .entry c :: rest)
  | _ + 1, _, rest => some ([], rest)

/-- The keys in a column with their values; one with nothing behind its colon has null. -/
def pairs : Nat → Nat → List Token → Option (List (String × Node) × List Token)
  | 0, _, _ => none
  | fuel + 1, column, .key c text :: rest =>
    if c = column then
      (if deeperValue column rest then node fuel rest else some (.null, rest)).bind
        fun (value, rest) => (pairs fuel column rest).map
          fun (more, rest) => ((text, value) :: more, rest)
    else some ([], .key c text :: rest)
  | _ + 1, _, rest => some ([], rest)
end

/-- Every token is read in two steps at most. -/
def build (tokens : List Token) : Option Node :=
  match node (2 * tokens.length + 1) tokens with
  | some (root, []) => some root
  | _ => none

/-- The tree of a document. -/
def readDocument (text : String) : Option Node := (tokens .fresh text.toList).bind build

mutual
/-- The tokens of a node whose entries or keys stand in a column, each level two further in. -/
def layout : Node → Nat → List Token
  | .array (item :: items), column => layoutItems (item :: items) column
  | .object (pair :: pairs), column => layoutPairs (pair :: pairs) column
  | node, _ => [.scalar node]

def layoutItems : List Node → Nat → List Token
  | [], _ => []
  | item :: items, column =>
    .entry column :: (layout item (column + 2) ++ layoutItems items column)

def layoutPairs : List (String × Node) → Nat → List Token
  | [], _ => []
  | (key, value) :: pairs, column =>
    .key column key :: (layout value (column + 2) ++ layoutPairs pairs column)
end

/-- No object has a key twice. -/
inductive Node.Distinct : Node → Prop
  | null : Distinct .null
  | bool (b : Bool) : Distinct (.bool b)
  | number (n : Decimal) : Distinct (.number n)
  | string (s : String) : Distinct (.string s)
  | array {items : List Node} (each : ∀ item ∈ items, Distinct item) : Distinct (.array items)
  | object {pairs : List (String × Node)} (keys : (pairs.map Prod.fst).Nodup)
      (each : ∀ pair ∈ pairs, Distinct pair.2) : Distinct (.object pairs)

/-- Every key and every text of the tree is as asked. -/
inductive Node.Each (K T : String → Prop) : Node → Prop
  | null : Each K T .null
  | bool (b : Bool) : Each K T (.bool b)
  | number (n : Decimal) : Each K T (.number n)
  | string {s : String} (here : T s) : Each K T (.string s)
  | array {items : List Node} (each : ∀ item ∈ items, Each K T item) : Each K T (.array items)
  | object {pairs : List (String × Node)} (keys : ∀ pair ∈ pairs, K pair.1)
      (each : ∀ pair ∈ pairs, Each K T pair.2) : Each K T (.object pairs)

section
variable {v : Node} {vs : List Node} {ps : List (String × Node)} {column fuel : Nat}
  {rest : List Token} {key : String}

/-- The tokens go on left of the column. -/
def Outside (column : Nat) : List Token → Prop
  | .entry c :: _ => c < column
  | .key c _ :: _ => c < column
  | .scalar _ :: _ => False
  | [] => True

/-- The tokens go on left of a sequence in the column, or with a key in it. -/
def OutsideItems (column : Nat) : List Token → Prop
  | .key c _ :: _ => c ≤ column
  | rest => Outside column rest

theorem Outside.items (outside : Outside column rest) : OutsideItems column rest := by
  cases rest with
  | nil => trivial
  | cons token rest => cases token <;> simp_all [Outside, OutsideItems]; omega

theorem Outside.mono {inner : Nat} (outside : Outside column rest) (deeper : column ≤ inner) :
    Outside inner rest := by
  cases rest with
  | nil => trivial
  | cons token rest => cases token <;> simp_all [Outside] <;> omega

/-- The node is read from its layout, whatever follows outside of it. -/
def Reads (v : Node) : Prop := ∀ column fuel rest, 2 * (layout v column).length + 1 ≤ fuel →
  Outside column rest → node fuel (layout v column ++ rest) = some (v, rest)

theorem layout_start (v : Node) (column : Nat) : ∃ token more, layout v column = token :: more ∧
    (token = .entry column ∨ (∃ key, token = .key column key) ∨
      ∃ value, token = .scalar value) := by
  fun_cases layout v column with
  | case1 column item items => exact ⟨_, _, by rw [layoutItems], .inl rfl⟩
  | case2 column pair pairs => exact ⟨_, _, by rw [layoutPairs], .inr (.inl ⟨_, rfl⟩)⟩
  | case3 node column => exact ⟨_, _, rfl, .inr (.inr ⟨_, rfl⟩)⟩

theorem deeper_layout {outer : Nat} (inside : outer < column) :
    deeper outer (layout v column ++ rest) = true := by
  obtain ⟨token, more, same, rfl | ⟨key, rfl⟩ | ⟨value, rfl⟩⟩ := layout_start v column
  · simpa [same, deeper] using inside
  · simpa [same, deeper] using inside
  · simp [same, deeper]

theorem deeperValue_of_deeper {tokens : List Token} (inside : deeper column tokens = true) :
    deeperValue column tokens = true := by
  cases tokens with
  | nil => exact inside
  | cons token tokens =>
    cases token with
    | entry c =>
      simp only [deeper, decide_eq_true_eq] at inside
      simp only [deeperValue, decide_eq_true_eq]
      omega
    | key c text => exact inside
    | scalar value => exact inside

theorem items_outside (outside : OutsideItems column rest) (enough : 1 ≤ fuel) :
    items fuel column rest = some ([], rest) := by
  obtain ⟨fuel, rfl⟩ := Nat.exists_eq_add_of_le' enough
  cases rest with
  | nil => rfl
  | cons token rest =>
    cases token with
    | entry c =>
      have other : c ≠ column := Nat.ne_of_lt outside
      simp [items, other]
    | key c text => rfl
    | scalar value => rfl

theorem pairs_outside (outside : Outside column rest) (enough : 1 ≤ fuel) :
    pairs fuel column rest = some ([], rest) := by
  obtain ⟨fuel, rfl⟩ := Nat.exists_eq_add_of_le' enough
  cases rest with
  | nil => rfl
  | cons token rest =>
    cases token with
    | entry c => rfl
    | key c text =>
      have other : c ≠ column := Nat.ne_of_lt outside
      simp [pairs, other]
    | scalar value => rfl

theorem outside_layoutItems (outside : OutsideItems column rest) :
    Outside (column + 2) (layoutItems vs column ++ rest) := by
  cases vs with
  | nil =>
    cases rest with
    | nil => trivial
    | cons token rest => cases token <;> simp_all [Outside, OutsideItems, layoutItems] <;> omega
  | cons v vs => simp [layoutItems, Outside]

/-- A dash, what stands behind it laid out deeper, and the entries after it. -/
theorem items_cons {tokens : List Token} (reads : node fuel (tokens ++ rest) = some (v, rest))
    (inside : deeper column (tokens ++ rest) = true) :
    items (fuel + 1) column (.entry column :: (tokens ++ rest)) =
      (items fuel column rest).map fun (more, rest) => (v :: more, rest) := by
  simp [items, inside, reads]

theorem items_layout (each : ∀ v ∈ vs, Reads v) (outside : OutsideItems column rest)
    (some_ : 1 ≤ fuel) (enough : 2 * (layoutItems vs column).length ≤ fuel) :
    items fuel column (layoutItems vs column ++ rest) = some (vs, rest) := by
  induction vs generalizing fuel with
  | nil => exact items_outside outside some_
  | cons v vs ih =>
    obtain ⟨fuel, rfl⟩ := Nat.exists_eq_add_of_le' some_
    simp only [layoutItems, List.length_cons, List.length_append] at enough
    have inner := each v List.mem_cons_self (column + 2) fuel (layoutItems vs column ++ rest)
      (by omega) (outside_layoutItems outside)
    have more := @ih fuel (fun w member => each w (.tail _ member)) (by omega) (by omega)
    rw [layoutItems, List.cons_append, List.append_assoc, items_cons inner, more]
    · rfl
    · exact deeper_layout (Nat.lt_add_of_pos_right Nat.zero_lt_two)

/-- A key, its value laid out deeper or as a sequence in its own column, and the keys after it. -/
theorem pairs_cons {inner : Nat} (reads : node fuel (layout v inner ++ rest) = some (v, rest))
    (inside : deeperValue column (layout v inner ++ rest) = true) :
    pairs (fuel + 1) column (.key column key :: (layout v inner ++ rest)) =
      (pairs fuel column rest).map fun (more, rest) => ((key, v) :: more, rest) := by
  simp [pairs, inside, reads]

theorem outside_layoutPairs (outside : Outside column rest) :
    Outside (column + 2) (layoutPairs ps column ++ rest) := by
  cases ps with
  | nil => exact outside.mono (Nat.le_add_right ..)
  | cons p ps => simp [layoutPairs, Outside]

theorem pairs_layout (each : ∀ p ∈ ps, Reads p.2) (outside : Outside column rest)
    (some_ : 1 ≤ fuel) (enough : 2 * (layoutPairs ps column).length ≤ fuel) :
    pairs fuel column (layoutPairs ps column ++ rest) = some (ps, rest) := by
  induction ps generalizing fuel with
  | nil => exact pairs_outside outside some_
  | cons p ps ih =>
    obtain ⟨key, v⟩ := p
    obtain ⟨fuel, rfl⟩ := Nat.exists_eq_add_of_le' some_
    simp only [layoutPairs, List.length_cons, List.length_append] at enough
    have here : Reads v := each (key, v) List.mem_cons_self
    have inner := here (column + 2) fuel (layoutPairs ps column ++ rest) (by omega)
      (outside_layoutPairs outside)
    have more := @ih fuel (fun w member => each w (.tail _ member)) (by omega) (by omega)
    rw [layoutPairs, List.cons_append, List.append_assoc, pairs_cons inner, more]
    · rfl
    · exact deeperValue_of_deeper (deeper_layout (Nat.lt_add_of_pos_right Nat.zero_lt_two))

theorem node_scalar {value : Node} (enough : 1 ≤ fuel) :
    node fuel (.scalar value :: rest) = some (value, rest) := by
  obtain ⟨fuel, rfl⟩ := Nat.exists_eq_add_of_le' enough
  rfl

theorem node_array (each : ∀ v ∈ vs, Reads v) (outside : OutsideItems column rest)
    (enough : 2 * (layout (.array vs) column).length + 1 ≤ fuel) :
    node fuel (layout (.array vs) column ++ rest) = some (.array vs, rest) := by
  cases vs with
  | nil => exact node_scalar (by omega)
  | cons v vs =>
    obtain ⟨fuel, rfl⟩ := Nat.exists_eq_add_of_le' (Nat.le_of_add_left_le enough)
    rw [layout] at enough ⊢
    have nonempty : 1 ≤ (layoutItems (v :: vs) column).length := by simp [layoutItems]
    have read := @items_layout _ _ fuel _ each outside (by omega) (by omega)
    rw [layoutItems, List.cons_append, node, ← List.cons_append, ← layoutItems, read]
    rfl

/-- Every tree without a key twice in an object is read from its layout. -/
theorem Node.Distinct.reads (distinct : v.Distinct) : Reads v := by
  induction distinct with
  | null | bool b | number n | string s =>
    intro column fuel rest enough _
    exact node_scalar (by omega)
  | array _ each =>
    intro column fuel rest enough outside
    exact node_array each outside.items enough
  | @object pairs keys _ each =>
    intro column fuel rest enough outside
    cases pairs with
    | nil => exact node_scalar (by omega)
    | cons pair pairs =>
      obtain ⟨fuel, rfl⟩ := Nat.exists_eq_add_of_le' (Nat.le_of_add_left_le enough)
      rw [layout] at enough ⊢
      have nonempty : 1 ≤ (layoutPairs (pair :: pairs) column).length := by simp [layoutPairs]
      have read := @pairs_layout _ _ fuel _ each outside (by omega) (by omega)
      obtain ⟨key, v⟩ := pair
      rw [layoutPairs, List.cons_append, node, ← List.cons_append, ← layoutPairs, read]
      exact if_pos keys

end
end PgCatalog.Library.Yaml
