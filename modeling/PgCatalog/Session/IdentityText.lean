import PgCatalog.Library.Locations
import PgCatalog.Library.Text
import PgCatalog.Registry.Registry

/-! The parentheses behind a keyword that is read without any, cut out of the text before it is
parsed: they are found among the tokens, and the text around them is copied by byte offsets. -/
namespace PgCatalog.Session

open Library

inductive Token where
  | word (value : String) (quoteStyle : Option Char)
  | lParen
  | rParen
  | whitespace
  | other
  deriving DecidableEq, Repr

structure TokenWithLocation where
  token : Token
  start : Location
  deriving DecidableEq, Repr

/-- A token and the text it was read from. -/
abbrev Piece := Token × List Char

def textOf (pieces : List Piece) : List Char := pieces.flatMap Prod.snd

/-- Tokens with the places they start at, each behind the one before it. -/
def located (place : Location) : List Piece → List TokenWithLocation
  | [] => []
  | (token, text) :: rest => ⟨token, place⟩ :: located (place.past text) rest

/-- A tokenizer: the tokens it reads make up the text, and a parenthesis is one character. -/
structure Tokenizer where
  pieces : List Char → Except String (List Piece)
  covers : ∀ {sql read}, pieces sql = .ok read → textOf read = sql
  opening : ∀ {sql read}, pieces sql = .ok read → ∀ text, (.lParen, text) ∈ read → text = ['(']
  closing : ∀ {sql read}, pieces sql = .ok read → ∀ text, (.rParen, text) ∈ read → text = [')']

def Tokenizer.tokenizeWithLocation (tokenizer : Tokenizer) (sql : List Char) :
    Except String (List TokenWithLocation) := (tokenizer.pieces sql).map (located .start)

def PARENTHESIS_LESS_TO_SQLPARSER : List String := ["current_user", "session_user"]

def isParenthesisLess : Token → Bool
  | .word value none => PARENTHESIS_LESS_TO_SQLPARSER.any (eqIgnoreAsciiCase · value)
  | _ => false

def byteOffsetOf (sql : List Char) (location : Location) : Option Nat :=
  byteOffsetFrom location .start 0 sql

/-- Each three neighbours of a list. -/
def windows3 {α : Type} : List α → List (α × α × α)
  | a :: b :: c :: rest => (a, b, c) :: windows3 (b :: c :: rest)
  | _ => []

/-- The cut three significant tokens call for. -/
def cutOf (sql : List Char) (keyword opened closed : TokenWithLocation) : Option (Nat × Nat) :=
  if isParenthesisLess keyword.token ∧ opened.token = .lParen ∧ closed.token = .rParen then
    (byteOffsetOf sql opened.start).bind fun start =>
      (byteOffsetOf sql closed.start).map fun stop => (start, stop + 1)
  else none

def significant (tokens : List TokenWithLocation) : List TokenWithLocation :=
  tokens.filter fun t => t.token ≠ .whitespace

def cutsAmong (sql : List Char) (tokens : List TokenWithLocation) : List (Nat × Nat) :=
  (windows3 tokens).filterMap fun (keyword, opened, closed) => cutOf sql keyword opened closed

def cutsOf (sql : List Char) (tokens : List TokenWithLocation) : List (Nat × Nat) :=
  cutsAmong sql (significant tokens)

/-- The text from one byte offset to another; there is none, and the slice panics, where they
are out of order or not between characters. -/
def textBetween (sql : List Char) (start stop : Nat) : Option (List Char) :=
  if start ≤ stop then sliceBytes start (stop - start) sql else none

/-- The text copied between the cuts, from an offset on. -/
def copiedFrom (sql : List Char) : Nat → List (Nat × Nat) → Option (List Char)
  | copied, [] => dropBytes copied sql
  | copied, (start, stop) :: cuts =>
    (textBetween sql copied start).bind fun before =>
      (copiedFrom sql stop cuts).map fun rest => before ++ rest

/-- The outer `none` is a panic. -/
def dropParenthesesAfterAParenthesisLessKeyword (tokenizer : Tokenizer) (sql : List Char) :
    Option (Except DataFusionError (List Char)) :=
  match tokenizer.tokenizeWithLocation sql with
  | .error e => some (.error (.plan s!"SQL tokenize error: {e}"))
  | .ok tokens =>
    if cutsOf sql tokens = [] then some (.ok sql)
    else (copiedFrom sql 0 (cutsOf sql tokens)).map .ok

/-! The same on the tokens alone. -/

def isBlank (piece : Piece) : Bool := piece.1 = .whitespace

/-- What follows a parenthesis that opens and closes at once, blanks aside, and is taken out. -/
def withoutPair : List Piece → List Piece
  | (.whitespace, text) :: rest => (.whitespace, text) :: withoutPair rest
  | (.lParen, text) :: rest =>
    match rest.dropWhile isBlank with
    | (.rParen, _) :: others => others
    | _ => (.lParen, text) :: rest
  | pieces => pieces

/-- The tokens that are left. -/
def edited : List Piece → List Piece
  | [] => []
  | piece :: rest =>
    piece :: if isParenthesisLess piece.1 then withoutPair (edited rest) else edited rest

example : edited [(.word "current_user" none, "current_user".toList), (.whitespace, [' ']),
      (.lParen, ['(']), (.rParen, [')']), (.other, [','])] =
    [(.word "current_user" none, "current_user".toList), (.whitespace, [' ']),
      (.other, [','])] := by
  decide +kernel

variable {sql : List Char} {place : Location} {pieces blanks inner others rest : List Piece}

@[simp] theorem textOf_append (xs ys : List Piece) : textOf (xs ++ ys) = textOf xs ++ textOf ys :=
  List.flatMap_append

@[simp] theorem textOf_cons (piece : Piece) (rest : List Piece) :
    textOf (piece :: rest) = piece.2 ++ textOf rest := List.flatMap_cons

/-- Pieces that are blank. -/
def Blank (pieces : List Piece) : Prop := ∀ piece ∈ pieces, piece.1 = .whitespace

/-- A list of pieces starts with blanks, and what follows them with none. -/
theorem blanks_first (pieces : List Piece) : ∃ blanks rest, Blank blanks ∧
    pieces = blanks ++ rest ∧ ∀ piece ∈ rest.head?, piece.1 ≠ .whitespace := by
  induction pieces with
  | nil => exact ⟨[], [], List.forall_mem_nil _, rfl, nofun⟩
  | cons piece pieces ih =>
    by_cases blank : piece.1 = .whitespace
    · obtain ⟨blanks, rest, blanks_, rfl, solid⟩ := ih
      exact ⟨piece :: blanks, rest, List.forall_mem_cons.mpr ⟨blank, blanks_⟩, rfl, solid⟩
    · refine ⟨[], piece :: pieces, List.forall_mem_nil _, rfl, ?_⟩
      rintro _ ⟨⟩
      exact blank

/-! What blanks leave as it is. -/

theorem significant_blanks (blank : Blank blanks) (rest : List Piece) :
    significant (located place (blanks ++ rest)) =
      significant (located (place.past (textOf blanks)) rest) := by
  induction blanks generalizing place with
  | nil => rfl
  | cons piece blanks ih =>
    obtain ⟨first, later⟩ := List.forall_mem_cons.mp blank
    obtain ⟨token, text⟩ := piece
    obtain rfl : token = .whitespace := first
    rw [List.cons_append, textOf_cons, Location.past_append, ← ih later]
    rfl

theorem edited_blanks (blank : Blank blanks) (rest : List Piece) :
    edited (blanks ++ rest) = blanks ++ edited rest := by
  induction blanks with
  | nil => rfl
  | cons piece blanks ih =>
    obtain ⟨first, later⟩ := List.forall_mem_cons.mp blank
    rw [List.cons_append, edited, first, ih later]
    rfl

theorem withoutPair_blanks (blank : Blank blanks) (rest : List Piece) :
    withoutPair (blanks ++ rest) = blanks ++ withoutPair rest := by
  induction blanks with
  | nil => rfl
  | cons piece blanks ih =>
    obtain ⟨first, later⟩ := List.forall_mem_cons.mp blank
    obtain ⟨token, text⟩ := piece
    obtain rfl : token = .whitespace := first
    rw [List.cons_append, withoutPair, ih later, List.cons_append]

theorem dropWhile_blanks (blank : Blank blanks) (rest : List Piece) :
    (blanks ++ rest).dropWhile isBlank = rest.dropWhile isBlank :=
  List.dropWhile_append_of_pos fun piece inside => decide_eq_true (blank piece inside)

theorem significant_cons {token : Token} (solid : token ≠ .whitespace) (text : List Char)
    (rest : List Piece) : significant (located place ((token, text) :: rest)) =
      ⟨token, place⟩ :: significant (located (place.past text) rest) :=
  List.filter_cons_of_pos (decide_eq_true solid)

/-! The three tokens of a cut. -/

/-- The cut a token calls for, with the tokens behind it. -/
def firstCut (sql : List Char) (keyword : TokenWithLocation) :
    List TokenWithLocation → Option (Nat × Nat)
  | opened :: closed :: _ => cutOf sql keyword opened closed
  | _ => none

theorem cutsAmong_cons (keyword : TokenWithLocation) (tokens : List TokenWithLocation) :
    cutsAmong sql (keyword :: tokens) =
      (firstCut sql keyword tokens).toList ++ cutsAmong sql tokens := by
  match tokens with
  | [] => rfl
  | [_] => rfl
  | opened :: closed :: tokens =>
    cases found : cutOf sql keyword opened closed <;> simp [cutsAmong, windows3, firstCut, found]

theorem cutOf_eq_none {keyword opened closed : TokenWithLocation}
    (other : opened.token ≠ .lParen ∨ closed.token ≠ .rParen) :
    cutOf sql keyword opened closed = none :=
  if_neg fun pattern => other.elim (· pattern.2.1) (· pattern.2.2)

theorem firstCut_other {opened : TokenWithLocation} (other : opened.token ≠ .lParen)
    (keyword : TokenWithLocation) (tokens : List TokenWithLocation) :
    firstCut sql keyword (opened :: tokens) = none := by
  match tokens with
  | [] => rfl
  | _ :: _ => exact cutOf_eq_none (.inl other)

theorem withoutPair_other {token : Token} (solid : token ≠ .whitespace) (other : token ≠ .lParen)
    (text : List Char) (rest : List Piece) :
    withoutPair ((token, text) :: rest) = (token, text) :: rest := by
  cases token <;> first | rfl | contradiction

theorem withoutPair_open (blank : Blank inner)
    (other : ∀ piece ∈ rest.head?, piece.1 ≠ .whitespace ∧ piece.1 ≠ .rParen) (text : List Char) :
    withoutPair ((.lParen, text) :: (inner ++ rest)) = (.lParen, text) :: (inner ++ rest) := by
  rw [withoutPair, dropWhile_blanks blank]
  match rest with
  | [] => rfl
  | (token, closed) :: more =>
    obtain ⟨solid, notClosed⟩ := other _ rfl
    rw [List.dropWhile_cons_of_neg (by simpa [isBlank] using solid)]
    cases token <;> first | rfl | contradiction

/-- Blanks, a parenthesis that opens, blanks, the one that closes it, and what is behind. -/
def Paired (pieces blanks inner others : List Piece) : Prop :=
  Blank blanks ∧ Blank inner ∧
    pieces = blanks ++ (.lParen, ['(']) :: (inner ++ (.rParen, [')']) :: others)

/-- Parentheses are one character. -/
def Single (pieces : List Piece) : Prop :=
  (∀ text, (.lParen, text) ∈ pieces → text = ['(']) ∧
    ∀ text, (.rParen, text) ∈ pieces → text = [')']

theorem Single.append_right {xs ys : List Piece} (single : Single (xs ++ ys)) : Single ys :=
  ⟨fun text inside => single.1 text (List.mem_append_right _ inside),
    fun text inside => single.2 text (List.mem_append_right _ inside)⟩

theorem Single.tail {piece : Piece} (single : Single (piece :: rest)) : Single rest :=
  @Single.append_right [piece] rest single

/-- Where no pair of parentheses is next, no token calls for a cut and nothing is taken out. -/
theorem paired_or (single : Single pieces) :
    (∃ blanks inner others, Paired pieces blanks inner others) ∨
    (∀ sql keyword place, firstCut sql keyword (significant (located place pieces)) = none) ∧
      withoutPair (edited pieces) = edited pieces := by
  obtain ⟨blanks, rest, blank, rfl, solid⟩ := blanks_first pieces
  have apart {more : List Piece} (other : (∀ sql keyword place,
      firstCut sql keyword (significant (located place more)) = none) ∧
        withoutPair (edited more) = edited more) :
      (∀ sql keyword place,
        firstCut sql keyword (significant (located place (blanks ++ more))) = none) ∧
        withoutPair (edited (blanks ++ more)) = edited (blanks ++ more) := by
    refine ⟨fun sql keyword place => ?_, ?_⟩
    · rw [significant_blanks blank]
      exact other.1 _ _ _
    · rw [edited_blanks blank, withoutPair_blanks blank, other.2]
  match rest with
  | [] => exact .inr (apart ⟨fun _ _ _ => rfl, rfl⟩)
  | (token, text) :: more =>
    have solid : token ≠ .whitespace := solid _ rfl
    by_cases opened : token = .lParen
    · subst opened
      obtain rfl : text = ['('] := single.append_right.1 _ List.mem_cons_self
      obtain ⟨inner, rest, innerBlank, rfl, next⟩ := blanks_first more
      match rest with
      | [] =>
        refine .inr (apart ⟨fun sql keyword place => ?_, ?_⟩)
        · rw [significant_cons (by decide), significant_blanks innerBlank]
          rfl
        · rw [edited, edited_blanks innerBlank]
          exact @withoutPair_open inner [] innerBlank nofun _
      | (next_, closed) :: others =>
        have next : next_ ≠ .whitespace := next _ rfl
        by_cases closes : next_ = .rParen
        · subst closes
          obtain rfl : closed = [')'] :=
            single.append_right.tail.append_right.2 _ List.mem_cons_self
          exact .inl ⟨blanks, inner, others, blank, innerBlank, rfl⟩
        · refine .inr (apart ⟨fun sql keyword place => ?_, ?_⟩)
          · rw [significant_cons (by decide), significant_blanks innerBlank, significant_cons next]
            exact cutOf_eq_none (.inr closes)
          · rw [edited, edited_blanks innerBlank, edited]
            refine withoutPair_open innerBlank ?_ _
            rintro _ ⟨⟩
            exact ⟨next, closes⟩
    · refine .inr (apart ⟨fun sql keyword place => ?_, ?_⟩)
      · rw [significant_cons solid]
        exact firstCut_other opened _ _
      · rw [edited]
        exact withoutPair_other solid opened _ _

theorem byteOffsetOf_past {before after : List Char} (whole : sql = before ++ after) :
    byteOffsetOf sql (Location.start.past before) = some (byteLength before) := by
  rw [whole, byteOffsetOf, byteOffsetFrom_past, Nat.zero_add]

theorem textBetween_eq {before middle after : List Char} (whole : sql = before ++ middle ++ after) :
    textBetween sql (byteLength before) (byteLength (before ++ middle)) = some middle := by
  rw [textBetween, byteLength_append, if_pos (Nat.le_add_right _ _), Nat.add_sub_cancel_left]
  exact sliceBytes_eq_some.mpr ⟨before, after, whole, rfl, rfl⟩

/-- What a pair of parentheses and the blanks in it are read from. -/
def pairText (inner : List Piece) : List Char := '(' :: textOf inner ++ [')']

theorem Paired.textOf_eq (paired : Paired pieces blanks inner others) :
    textOf pieces = textOf blanks ++ pairText inner ++ textOf others := by
  obtain ⟨-, -, rfl⟩ := paired
  simp [pairText]

/-- The cut of a keyword with a pair of parentheses behind it. -/
theorem firstCut_paired {keyword : TokenWithLocation} {before : List Char}
    (known : isParenthesisLess keyword.token) (paired : Paired pieces blanks inner others)
    (whole : sql = before ++ textOf pieces) :
    firstCut sql keyword (significant (located (Location.start.past before) pieces)) =
      some (byteLength (before ++ textOf blanks),
        byteLength (before ++ textOf blanks ++ pairText inner)) := by
  have opened : sql = before ++ textOf blanks ++ (pairText inner ++ textOf others) := by
    rw [whole, paired.textOf_eq]
    simp only [List.append_assoc]
  have closed : sql = before ++ textOf blanks ++ (['('] ++ textOf inner) ++
      ([')'] ++ textOf others) := by
    simpa [pairText] using opened
  obtain ⟨blank, innerBlank, rfl⟩ := paired
  rw [significant_blanks blank, significant_cons (by decide), significant_blanks innerBlank,
    significant_cons (by decide), ← Location.past_append, ← Location.past_append,
    ← Location.past_append, firstCut, cutOf, if_pos ⟨known, rfl, rfl⟩, byteOffsetOf_past opened,
    byteOffsetOf_past closed]
  have one : ')'.utf8Size = 1 := rfl
  simp [pairText, byteLength_append, byteLength, Nat.add_assoc, one]

theorem cutsOf_solid {token : Token} (solid : token ≠ .whitespace) (text : List Char)
    (rest : List Piece) : cutsOf sql (located place ((token, text) :: rest)) =
      (firstCut sql ⟨token, place⟩ (significant (located (place.past text) rest))).toList ++
        cutsOf sql (located (place.past text) rest) := by
  rw [cutsOf, significant_cons solid, cutsAmong_cons, cutsOf]

theorem firstCut_unknown {keyword : TokenWithLocation}
    (unknown : isParenthesisLess keyword.token = false) (tokens : List TokenWithLocation) :
    firstCut sql keyword tokens = none := by
  match tokens with
  | [] => rfl
  | [_] => rfl
  | _ :: _ :: _ => exact if_neg fun pattern => by simp [unknown] at pattern

theorem cutsOf_unknown {token : Token} (unknown : isParenthesisLess token = false)
    (text : List Char) (rest : List Piece) :
    cutsOf sql (located place ((token, text) :: rest)) =
      cutsOf sql (located (place.past text) rest) := by
  by_cases blank : token = .whitespace
  · subst blank
    rfl
  · rw [cutsOf_solid blank, firstCut_unknown unknown]
    rfl

theorem cutsOf_blanks (blank : Blank blanks) (rest : List Piece) :
    cutsOf sql (located place (blanks ++ rest)) =
      cutsOf sql (located (place.past (textOf blanks)) rest) := by
  rw [cutsOf, significant_blanks blank, cutsOf]

/-- Among blanks and a pair stands no keyword, so the cuts there are those of what is behind. -/
theorem cutsOf_paired (paired : Paired pieces blanks inner others) (place : Location) :
    cutsOf sql (located place pieces) =
      cutsOf sql (located (place.past (textOf blanks ++ pairText inner)) others) := by
  obtain ⟨blank, innerBlank, rfl⟩ := paired
  rw [cutsOf_blanks blank, cutsOf_unknown rfl, cutsOf_blanks innerBlank, cutsOf_unknown rfl]
  simp only [pairText, Location.past_append, Location.past_cons, Location.past_nil,
    List.cons_append]

theorem edited_paired (paired : Paired pieces blanks inner others) :
    withoutPair (edited pieces) = blanks ++ edited others := by
  obtain ⟨blank, innerBlank, rfl⟩ := paired
  have closed : (inner ++ (Token.rParen, [')']) :: edited others).dropWhile isBlank =
      (.rParen, [')']) :: edited others := by
    rw [dropWhile_blanks innerBlank]
    rfl
  rw [edited_blanks blank, withoutPair_blanks blank, edited, if_neg (by decide),
    edited_blanks innerBlank, edited, if_neg (by decide), withoutPair, closed]

theorem Paired.shorter (paired : Paired pieces blanks inner others) :
    others.length < pieces.length := by
  obtain ⟨-, -, rfl⟩ := paired
  simp only [List.length_append, List.length_cons]
  omega

theorem Paired.single (paired : Paired pieces blanks inner others) (single : Single pieces) :
    Single others := by
  obtain ⟨-, -, rfl⟩ := paired
  exact single.append_right.tail.append_right.tail

/-- The text that is copied, with what stands before the pieces split into what is copied
already and what is to be copied up to the next cut. -/
theorem copiedFrom_eq (n : Nat) : ∀ (kept pending : List Char) (pieces : List Piece),
    pieces.length ≤ n → Single pieces → sql = kept ++ pending ++ textOf pieces →
    copiedFrom sql (byteLength kept)
        (cutsOf sql (located (Location.start.past (kept ++ pending)) pieces)) =
      some (pending ++ textOf (edited pieces)) := by
  induction n with
  | zero =>
    intro kept pending pieces short _ whole
    obtain rfl := List.length_eq_zero_iff.mp (Nat.le_zero.mp short)
    exact dropBytes_eq_some.mpr ⟨kept, by simpa [textOf, edited] using whole, rfl⟩
  | succ n ih =>
    intro kept pending pieces short single whole
    match pieces with
    | [] => exact dropBytes_eq_some.mpr ⟨kept, by simpa [textOf, edited] using whole, rfl⟩
    | (token, text) :: rest =>
      have short : rest.length ≤ n := Nat.le_of_succ_le_succ short
      have whole : sql = kept ++ (pending ++ text) ++ textOf rest := by simpa using whole
      -- What is not followed by a pair is copied with the rest.
      have going
          (cuts : cutsOf sql (located (Location.start.past (kept ++ pending))
              ((token, text) :: rest)) =
            cutsOf sql (located (Location.start.past (kept ++ (pending ++ text))) rest))
          (left : edited ((token, text) :: rest) = (token, text) :: edited rest) :
          copiedFrom sql (byteLength kept) (cutsOf sql
              (located (Location.start.past (kept ++ pending)) ((token, text) :: rest))) =
            some (pending ++ textOf (edited ((token, text) :: rest))) := by
        rw [cuts, left, ih kept (pending ++ text) rest short single.tail whole]
        simp
      have place : (Location.start.past (kept ++ pending)).past text =
          Location.start.past (kept ++ (pending ++ text)) := by
        rw [← Location.past_append, List.append_assoc]
      by_cases known : isParenthesisLess token
      · have solid : token ≠ .whitespace := by
          rintro rfl
          cases known
        obtain ⟨blanks, inner, others, paired⟩ | ⟨uncut, left⟩ := paired_or single.tail
        · have before : sql = kept ++ (pending ++ text ++ textOf blanks) ++
              (pairText inner ++ textOf others) := by
            rw [whole, paired.textOf_eq]
            simp only [List.append_assoc]
          have behind : sql = kept ++ (pending ++ text) ++ textOf blanks ++ pairText inner ++ [] ++
              textOf others := by
            rw [whole, paired.textOf_eq]
            simp only [List.append_assoc, List.append_nil]
          have later := ih _ [] others ((Nat.le_of_lt paired.shorter).trans short)
            (paired.single single.tail) behind
          rw [cutsOf_solid solid, place, firstCut_paired known paired whole, cutsOf_paired paired,
            ← Location.past_append, Option.toList_some, List.singleton_append, copiedFrom]
          rw [List.append_assoc kept, textBetween_eq before, Option.bind_some]
          simp only [List.append_assoc, List.append_nil, List.nil_append] at later ⊢
          rw [later, edited, if_pos known, edited_paired paired]
          simp
        · refine going ?_ ?_
          · rw [cutsOf_solid solid, uncut, place]
            rfl
          · rw [edited, if_pos known, left]
      · have unknown : isParenthesisLess token = false := Bool.eq_false_iff.mpr known
        refine going ?_ ?_
        · rw [cutsOf_unknown unknown, place]
        · rw [edited, if_neg known]

/-- The text is never cut within a character or out of its length, and what is left of it is the
text of the tokens that are left. -/
theorem dropParentheses_eq (tokenizer : Tokenizer) (sql : List Char) :
    dropParenthesesAfterAParenthesisLessKeyword tokenizer sql =
      some (((tokenizer.pieces sql).mapError fun e => .plan s!"SQL tokenize error: {e}").map
        fun pieces => textOf (edited pieces)) := by
  rw [dropParenthesesAfterAParenthesisLessKeyword, Tokenizer.tokenizeWithLocation]
  cases read : tokenizer.pieces sql with
  | error e => rfl
  | ok pieces =>
    have left := copiedFrom_eq pieces.length [] [] pieces le_rfl
      ⟨tokenizer.opening read, tokenizer.closing read⟩ (tokenizer.covers read).symm
    simp only [byteLength, List.append_nil, List.nil_append, Location.past_nil] at left
    simp only [Except.map, Except.mapError]
    split
    · next uncut =>
      rw [uncut, copiedFrom, dropBytes_zero] at left
      rw [Option.some.inj left]
    · rw [left]
      rfl

/-- What is no blank and no parenthesis. -/
def isSolid (piece : Piece) : Bool :=
  piece.1 ≠ .whitespace && piece.1 ≠ .lParen && piece.1 ≠ .rParen

theorem withoutPair_sublist (pieces : List Piece) : (withoutPair pieces).Sublist pieces := by
  fun_induction withoutPair pieces with
  | case1 text rest ih => exact ih.cons_cons _
  | case2 text rest closed others found =>
    have behind : ((Token.rParen, closed) :: others).Sublist rest :=
      found ▸ List.dropWhile_sublist _
    exact ((List.sublist_cons_self _ _).trans behind).cons _
  | case3 => exact List.Sublist.refl _
  | case4 => exact List.Sublist.refl _

theorem filter_dropWhile_blanks (pieces : List Piece) :
    (pieces.dropWhile isBlank).filter isSolid = pieces.filter isSolid := by
  induction pieces with
  | nil => rfl
  | cons piece pieces ih =>
    by_cases blank : isBlank piece
    · have hollow : ¬ isSolid piece := by
        simp [isSolid, of_decide_eq_true blank]
      rw [List.dropWhile_cons_of_pos blank, List.filter_cons_of_neg hollow, ih]
    · rw [List.dropWhile_cons_of_neg blank]

theorem filter_withoutPair (pieces : List Piece) :
    (withoutPair pieces).filter isSolid = pieces.filter isSolid := by
  fun_induction withoutPair pieces with
  | case1 text rest ih => exact ih
  | case2 text rest closed others found =>
    have behind := filter_dropWhile_blanks rest
    rw [found] at behind
    exact behind
  | case3 => rfl
  | case4 => rfl

/-- Nothing but parentheses and blanks is taken out. -/
theorem edited_sublist (pieces : List Piece) : (edited pieces).Sublist pieces := by
  induction pieces with
  | nil => exact List.Sublist.refl _
  | cons piece pieces ih =>
    rw [edited]
    split
    · exact ((withoutPair_sublist _).trans ih).cons_cons _
    · exact ih.cons_cons _

theorem filter_edited (pieces : List Piece) :
    (edited pieces).filter isSolid = pieces.filter isSolid := by
  induction pieces with
  | nil => rfl
  | cons piece pieces ih =>
    have same : (if isParenthesisLess piece.1 then withoutPair (edited pieces)
        else edited pieces).filter isSolid = pieces.filter isSolid := by
      split
      · rw [filter_withoutPair, ih]
      · exact ih
    rw [edited, List.filter_cons, List.filter_cons, same]

end PgCatalog.Session
