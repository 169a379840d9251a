import Webycash.Lib.I64
import Webycash.Lib.Json
/-!
# A JSON text has one value

No text of a value can be cut off before its end: a string runs to its closing quote, an object to its closing
brace, a number to the first character that is no part of a number. So the texts of two values, each followed by
something that ends a number, agree only if the values do (`toChars_inj`), and `toText` is injective.
-/

namespace Json

/-! ## Strings -/

def hexValue (c : Char) : Nat := if c.isDigit then c.toNat - 48 else c.toNat - 87

/-- The character after a backslash. -/
def unescapeCode : List Char → Option (Char × List Char)
  | 'u' :: _ :: _ :: h :: l :: r => some (Char.ofNat (16 * hexValue h + hexValue l), r)
  | 'b' :: r => some (Char.ofNat 8, r)
  | 't' :: r => some (Char.ofNat 9, r)
  | 'n' :: r => some (Char.ofNat 10, r)
  | 'f' :: r => some (Char.ofNat 12, r)
  | 'r' :: r => some (Char.ofNat 13, r)
  | c :: r => some (c, r)
  | [] => none

/-- The first character of a quoted text, and what is left; none at the closing quote. -/
def unescape : List Char → Option (Char × List Char)
  | [] => none
  | c :: r => if c = '\\' then unescapeCode r else if c = '"' then none else some (c, r)

theorem hexValue_digitChar : ∀ d < 16, hexValue (Nat.digitChar d) = d := by decide

/-- **An escape is read back.** -/
theorem unescape_escape (c : Char) (r : List Char) : unescape (escape c ++ r) = some (c, r) := by
  have hchar : ∀ {n}, c.toNat = n → c = Char.ofNat n := fun h => by rw [← h, Char.ofNat_toNat]
  unfold escape
  dsimp only
  split
  · rw [hchar ‹_›]
    rfl
  split
  · rw [hchar ‹_›]
    rfl
  split
  · rw [hchar ‹_›]
    rfl
  split
  · rw [hchar ‹_›]
    rfl
  split
  · rw [hchar ‹_›]
    rfl
  split
  · rw [hchar ‹_›]
    rfl
  split
  · rw [hchar ‹_›]
    rfl
  split
  · have hhigh := hexValue_digitChar (c.toNat / 16) (by omega)
    have hlow := hexValue_digitChar (c.toNat % 16) (by omega)
    show some (Char.ofNat (16 * hexValue (Nat.digitChar (c.toNat / 16)) +
      hexValue (Nat.digitChar (c.toNat % 16))), r) = _
    rw [hhigh, hlow, Nat.div_add_mod, Char.ofNat_toNat]
  · rename_i hquote hslash _ _ _ _ _ _
    have hslash : c ≠ '\\' := fun h => hslash (by rw [h]; rfl)
    have hquote : c ≠ '"' := fun h => hquote (by rw [h]; rfl)
    show (if c = '\\' then unescapeCode r else if c = '"' then none else some (c, r)) = _
    rw [if_neg hslash, if_neg hquote]

theorem escape_inj {c d : Char} {r s : List Char} (h : escape c ++ r = escape d ++ s) : c = d ∧ r = s := by
  have hread := congrArg unescape h
  rw [unescape_escape, unescape_escape] at hread
  exact Prod.mk.inj (Option.some.inj hread)

/-- No escape begins like a closing quote. -/
theorem escape_ne_quote (c : Char) (r s : List Char) : escape c ++ r ≠ '"' :: s := by
  intro h
  have hread := congrArg unescape h
  rw [unescape_escape] at hread
  cases hread

/-- A quoted text runs to its closing quote. -/
theorem flatMap_escape_inj : ∀ {s t r r' : List Char}, s.flatMap escape ++ '"' :: r = t.flatMap escape ++
    '"' :: r' → s = t ∧ r = r'
  | [], [], _, _, h => ⟨rfl, (List.cons.inj h).2⟩
  | [], d :: t, r, r', h => by
    rw [List.flatMap_cons, List.append_assoc] at h
    exact absurd h.symm (escape_ne_quote d _ _)
  | c :: s, [], r, r', h => by
    rw [List.flatMap_cons, List.append_assoc] at h
    exact absurd h (escape_ne_quote c _ _)
  | c :: s, d :: t, r, r', h => by
    rw [List.flatMap_cons, List.flatMap_cons, List.append_assoc, List.append_assoc] at h
    obtain ⟨rfl, hrest⟩ := escape_inj h
    obtain ⟨rfl, hr⟩ := flatMap_escape_inj hrest
    exact ⟨rfl, hr⟩

theorem quote_inj {s t : String} {r r' : List Char} (h : quote s ++ r = quote t ++ r') : s = t ∧ r = r' := by
  have hbody : s.toList.flatMap escape ++ '"' :: r = t.toList.flatMap escape ++ '"' :: r' := by
    simpa [quote] using h
  obtain ⟨hst, hr⟩ := flatMap_escape_inj hbody
  exact ⟨String.toList_injective hst, hr⟩

/-! ## Numbers -/

/-- A character of a number. -/
def isNumeric (c : Char) : Bool := c == '-' || c.isDigit

/-- What follows does not go on with a number. -/
def Ends (r : List Char) : Prop := ∀ c ∈ r.head?, isNumeric c = false

theorem numeric_of_digit {n : Nat} {c : Char} (h : c ∈ Nat.toDigits 10 n) : isNumeric c = true := by
  rw [isNumeric, Nat.isDigit_of_mem_toDigits (by decide) (by decide) h, Bool.or_true]

/-- The text of a number: its digits, behind a sign when it is negative. -/
theorem toList_toString (n : Int) : (toString n).toList = match n with
    | .ofNat n => Nat.toDigits 10 n
    | .negSucc n => '-' :: Nat.toDigits 10 (n + 1) := by
  cases n with
  | ofNat n => exact Nat.toList_repr
  | negSucc n =>
    show ("-" ++ Nat.repr (n + 1)).toList = _
    rw [String.toList_append, Nat.toList_repr]
    rfl

theorem numeric_of_mem (n : Int) : ∀ c ∈ (toString n).toList, isNumeric c = true := by
  intro c hc
  rw [toList_toString] at hc
  cases n with
  | ofNat n => exact numeric_of_digit hc
  | negSucc n =>
    rcases List.mem_cons.1 hc with rfl | hc
    · rfl
    · exact numeric_of_digit hc

theorem toDigits_inj {n m : Nat} (h : Nat.toDigits 10 n = Nat.toDigits 10 m) : n = m := by
  have hread := congrArg I64.digits? h
  rw [I64.digits?_toDigits, I64.digits?_toDigits] at hread
  exact Option.some.inj hread

theorem minus_ne_toDigits {n : Nat} {cs : List Char} : '-' :: cs ≠ Nat.toDigits 10 n := by
  intro h
  have hdigit : '-'.isDigit = true := Nat.isDigit_of_mem_toDigits (b := 10) (n := n) (by decide) (by decide)
    (by rw [← h]; exact List.mem_cons_self)
  exact absurd hdigit (by decide)

theorem toString_inj {n m : Int} (h : (toString n).toList = (toString m).toList) : n = m := by
  rw [toList_toString, toList_toString] at h
  cases n with
  | ofNat n =>
    cases m with
    | ofNat m => rw [toDigits_inj h]
    | negSucc m => exact absurd h.symm minus_ne_toDigits
  | negSucc n =>
    cases m with
    | ofNat m => exact absurd h minus_ne_toDigits
    | negSucc m => rw [Nat.succ.inj (toDigits_inj (List.cons.inj h).2)]

/-- What the characters of a number spell before what ends it. -/
theorem takeWhile_numeric {a r : List Char} (ha : ∀ c ∈ a, isNumeric c = true) (hr : Ends r) :
    (a ++ r).takeWhile isNumeric = a := by
  rw [List.takeWhile_append_of_pos ha]
  cases r with
  | nil => simp
  | cons c r => simp [hr c rfl]

theorem num_inj {n m : Int} {r r' : List Char} (hr : Ends r) (hr' : Ends r')
    (h : (toString n).toList ++ r = (toString m).toList ++ r') :
    n = m ∧ r = r' := by
  have htext : (toString n).toList = (toString m).toList := by
    rw [← takeWhile_numeric (numeric_of_mem n) hr, h, takeWhile_numeric (numeric_of_mem m) hr']
  refine ⟨toString_inj htext, ?_⟩
  rw [htext] at h
  exact List.append_cancel_left h

/-! ## Values -/

/-- What a first character begins. -/
inductive Kind
  | null
  | true
  | false
  | num
  | str
  | obj
  deriving DecidableEq

def kindOfChar (c : Char) : Kind :=
  if c = 'n' then .null else if c = 't' then .true else if c = 'f' then .false else if c = '"' then .str
  else if c = '\x7b' then .obj else .num

def kind : Json → Kind
  | null => .null
  | bool b => if b then .true else .false
  | num _ => .num
  | str _ => .str
  | obj _ => .obj

theorem kindOfChar_numeric {c : Char} (h : isNumeric c = true) : kindOfChar c = .num := by
  have hne : ∀ d, isNumeric d = false → c ≠ d := by
    rintro d hd rfl
    rw [h] at hd
    cases hd
  unfold kindOfChar
  rw [if_neg (hne _ (by decide)), if_neg (hne _ (by decide)), if_neg (hne _ (by decide)), if_neg (hne _ (by decide)),
    if_neg (hne _ (by decide))]

/-- **The first character of a text says what it is the text of.** -/
theorem head_toChars (v : Json) (r : List Char) : (toChars v ++ r).head?.map kindOfChar = some v.kind := by
  cases v with
  | null => simp [toChars, kind, kindOfChar]
  | bool b => cases b <;> simp [toChars, kind, kindOfChar]
  | str s => simp [toChars, quote, kind, kindOfChar]
  | obj fields => simp [toChars, kind, kindOfChar]
  | num n =>
    have hchars := numeric_of_mem n
    have hne : (toString n).toList ≠ [] := by
      rw [toList_toString]
      cases n with
      | ofNat n => exact Nat.toDigits_ne_nil
      | negSucc n => exact List.cons_ne_nil _ _
    rw [toChars]
    cases htext : (toString n).toList with
    | nil => exact absurd htext hne
    | cons c cs =>
      rw [htext] at hchars
      exact congrArg some (kindOfChar_numeric (hchars c List.mem_cons_self))

theorem ends_cons {c : Char} {r : List Char} (h : isNumeric c = false) : Ends (c :: r) := by
  intro d hd
  rw [← Option.some.inj (Option.mem_def.1 hd)]
  exact h

theorem kind_eq {v v' : Json} {r r' : List Char} (h : toChars v ++ r = toChars v' ++ r') : v.kind = v'.kind := by
  have hhead : (toChars v ++ r).head?.map kindOfChar = (toChars v' ++ r').head?.map kindOfChar := by rw [h]
  rw [head_toChars, head_toChars] at hhead
  exact Option.some.inj hhead

/-- What follows the first member of an object. -/
def afterMember (l : List (String × Json)) (r : List Char) : List Char :=
  match l with
  | [] => '\x7d' :: r
  | m :: l => ',' :: (membersToChars (m :: l) ++ '\x7d' :: r)

theorem members_cons (m : String × Json) (l : List (String × Json)) (r : List Char) :
    membersToChars (m :: l) ++ '\x7d' :: r = memberToChars m ++ afterMember l r := by
  cases l with
  | nil => rw [membersToChars, afterMember]
  | cons m' l => simp [membersToChars, afterMember]

theorem ends_afterMember (l : List (String × Json)) (r : List Char) : Ends (afterMember l r) := by
  cases l <;> exact ends_cons (by decide)

/-- A member begins with a quote, so it is not the end of its object. -/
theorem member_ne_end (m : String × Json) (r r' : List Char) : memberToChars m ++ r ≠ '\x7d' :: r' := by
  obtain ⟨name, v⟩ := m
  intro h
  have hhead := congrArg List.head? h
  simp [memberToChars, quote] at hhead

mutual

/-- **A text ends where its value does.** -/
theorem toChars_inj : ∀ (v v' : Json) {r r' : List Char}, Ends r → Ends r' → toChars v ++ r = toChars v' ++
    r' → v = v' ∧ r = r'
  | .null, v', r, r', _, _, h => by
    have hkind := kind_eq h
    cases v' with
    | null => exact ⟨rfl, List.append_cancel_left h⟩
    | bool b => cases b <;> cases hkind
    | _ => cases hkind
  | .bool b, v', r, r', _, _, h => by
    have hkind := kind_eq h
    cases v' with
    | bool b' =>
      have hb : b = b' := by cases b <;> cases b' <;> first | rfl | cases hkind
      subst hb
      exact ⟨rfl, List.append_cancel_left h⟩
    | _ => cases b <;> cases hkind
  | .num n, v', r, r', hr, hr', h => by
    have hkind := kind_eq h
    cases v' with
    | num m =>
      obtain ⟨rfl, hrest⟩ := num_inj hr hr' h
      exact ⟨rfl, hrest⟩
    | bool b => cases b <;> cases hkind
    | _ => cases hkind
  | .str s, v', r, r', _, _, h => by
    have hkind := kind_eq h
    cases v' with
    | str t =>
      obtain ⟨rfl, hrest⟩ := quote_inj h
      exact ⟨rfl, hrest⟩
    | bool b => cases b <;> cases hkind
    | _ => cases hkind
  | .obj fields, v', r, r', _, _, h => by
    have hkind := kind_eq h
    cases v' with
    | obj fields' =>
      have hmembers : membersToChars fields ++ '\x7d' :: r = membersToChars fields' ++ '\x7d' :: r' := by
        simpa [toChars] using h
      obtain ⟨rfl, hrest⟩ := membersToChars_inj fields fields' hmembers
      exact ⟨rfl, hrest⟩
    | bool b => cases b <;> cases hkind
    | _ => cases hkind

theorem membersToChars_inj : ∀ (l l' : List (String × Json)) {r r' : List Char},
    membersToChars l ++ '\x7d' :: r = membersToChars l' ++ '\x7d' :: r' → l = l' ∧ r = r'
  | [], [], r, r', h => ⟨rfl, (List.cons.inj h).2⟩
  | [], m' :: l', r, r', h => by
    rw [members_cons m' l'] at h
    exact absurd h.symm (member_ne_end m' _ _)
  | m :: l, [], r, r', h => by
    rw [members_cons m l] at h
    exact absurd h (member_ne_end m _ _)
  | m :: l, m' :: l', r, r', h => by
    rw [members_cons, members_cons] at h
    obtain ⟨rfl, hrest⟩ := memberToChars_inj m m' (ends_afterMember l r) (ends_afterMember l' r') h
    cases l with
    | nil =>
      cases l' with
      | nil => exact ⟨rfl, (List.cons.inj hrest).2⟩
      | cons x' l' => exact absurd (List.cons.inj hrest).1 (by decide)
    | cons x l =>
      cases l' with
      | nil => exact absurd (List.cons.inj hrest).1 (by decide)
      | cons x' l' =>
        obtain ⟨heq, hr⟩ := membersToChars_inj (x :: l) (x' :: l') (List.cons.inj hrest).2
        exact ⟨congrArg (m :: ·) heq, hr⟩

theorem memberToChars_inj : ∀ (m m' : String × Json) {r r' : List Char}, Ends r → Ends r' →
    memberToChars m ++ r = memberToChars m' ++ r' → m = m' ∧ r = r'
  | (name, v), (name', v'), r, r', hr, hr', h => by
    simp only [memberToChars, List.append_assoc] at h
    obtain ⟨rfl, hrest⟩ := quote_inj h
    obtain ⟨rfl, hr⟩ := toChars_inj v v' hr hr' (List.append_cancel_left hrest)
    exact ⟨rfl, hr⟩

end

/-- **A text is the text of one value.** -/
theorem toText_injective : Function.Injective toText := by
  intro v v' h
  have hchars : toChars v ++ [] = toChars v' ++ [] := by
    rw [List.append_nil, List.append_nil]
    exact String.ofList_injective h
  have hend : Ends [] := fun c hc => by cases hc
  exact (toChars_inj v v' hend hend hchars).1

end Json
