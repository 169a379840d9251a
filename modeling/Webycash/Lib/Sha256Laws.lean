import Mathlib.Data.List.GetD
import Webycash.Lib.Sha256
/-!
# Laws of SHA-256

What an implementation that pads, loads or schedules in its own way is compared with: the recurrence
of the schedule, `compress` as a loop over the round number, the blocks of a message as a loop over the
block number, the padded message byte by byte. `rolled_eq_compress` covers every implementation that
keeps only the last sixteen schedule words, each in the slot of its number modulo 16.
-/

namespace Sha256

theorem add_assoc_schedule (x y z t : Nat) : add (add (add x y) z) t = add (add (add t z) y) x := by
  show (((x + y) % 4294967296 + z) % 4294967296 + t) % 4294967296 =
    (((t + z) % 4294967296 + y) % 4294967296 + x) % 4294967296
  omega

/-! ## The schedule -/

theorem extend_succ : ∀ (n : Nat) (w : List Word), extend (n + 1) w = nextWord (extend n w) :: extend n w
  | 0, _ => rfl
  | n + 1, w => extend_succ n (nextWord w :: w)

theorem length_extend (n : Nat) (w : List Word) : (extend n w).length = w.length + n := by
  induction n with
  | zero => rfl
  | succ n ih => rw [extend_succ, List.length_cons, ih, Nat.add_assoc]

/-- The first `16 + n` words of the schedule. -/
def scheduled (block : List Word) (n : Nat) : List Word := (extend n block.reverse).reverse

theorem scheduled_zero (block : List Word) : scheduled block 0 = block := List.reverse_reverse block

theorem length_scheduled (block : List Word) (n : Nat) : (scheduled block n).length = block.length + n := by
  rw [scheduled, List.length_reverse, length_extend, List.length_reverse]

theorem scheduled_succ (block : List Word) (n : Nat) :
    scheduled block (n + 1) = scheduled block n ++ [nextWord (extend n block.reverse)] := by
  rw [scheduled, extend_succ, List.reverse_cons]
  rfl

/-- A word once scheduled stays where it is. -/
theorem scheduled_le (block : List Word) {n m : Nat} (h : n ≤ m) : scheduled block n <+: scheduled block m := by
  obtain ⟨k, rfl⟩ := Nat.exists_eq_add_of_le h
  clear h
  induction k with
  | zero => exact List.prefix_rfl
  | succ k ih =>
    rw [← Nat.add_assoc, scheduled_succ]
    exact ih.trans (List.prefix_append _ _)

theorem getD_of_prefix {l l' : List Word} (h : l <+: l') {t : Nat} (ht : t < l.length) : l'.getD t 0 = l.getD t 0 := by
  obtain ⟨rest, rfl⟩ := h
  rw [List.getD_append _ _ _ _ ht]

/-- Word `t` of the schedule. -/
def scheduleWord (block : List Word) (t : Nat) : Word := (schedule block).getD t 0

section

variable {block : List Word} (hblock : block.length = 16)
include hblock

theorem scheduleWord_lt {t : Nat} (ht : t < 16) : scheduleWord block t = block.getD t 0 := by
  have hprefix := scheduled_le block (Nat.zero_le 48)
  rw [scheduled_zero] at hprefix
  exact getD_of_prefix hprefix (by omega)

/-- The word `k` places from the end of the first `16 + n`. -/
theorem getD_extend {n k : Nat} (hn : n ≤ 48) (hk : k < 16 + n) :
    (extend n block.reverse).getD k 0 = scheduleWord block (15 + n - k) := by
  have hlen : (scheduled block n).length = 16 + n := by rw [length_scheduled, hblock]
  have hrev : extend n block.reverse = (scheduled block n).reverse := (List.reverse_reverse _).symm
  have hkeep : scheduleWord block (15 + n - k) = (scheduled block n).getD (15 + n - k) 0 :=
    getD_of_prefix (scheduled_le block hn) (by omega)
  rw [hkeep, hrev, List.getD_eq_getElem _ _ (by rw [List.length_reverse, hlen]; exact hk),
    List.getD_eq_getElem _ _ (by omega), List.getElem_reverse]
  congr 1
  omega

/-- **The recurrence of the schedule.** -/
theorem scheduleWord_ge {t : Nat} (ht : 16 ≤ t) (ht' : t < 64) :
    scheduleWord block t = add (add (add (smallSigma1 (scheduleWord block (t - 2))) (scheduleWord block (t - 7)))
      (smallSigma0 (scheduleWord block (t - 15)))) (scheduleWord block (t - 16)) := by
  obtain ⟨n, rfl⟩ := Nat.exists_eq_add_of_le ht
  have hword : scheduleWord block (16 + n) = nextWord (extend n block.reverse) := by
    have hlen : (scheduled block n).length = 16 + n := by rw [length_scheduled, hblock]
    have hkeep : scheduleWord block (16 + n) = (scheduled block (n + 1)).getD (16 + n) 0 :=
      getD_of_prefix (scheduled_le block (by omega)) (by rw [length_scheduled]; omega)
    rw [hkeep, scheduled_succ, List.getD_append_right _ _ _ _ (by omega), hlen, Nat.sub_self]
    rfl
  rw [hword, nextWord, getD_extend hblock (by omega) (by omega), getD_extend hblock (by omega) (by omega),
    getD_extend hblock (by omega) (by omega), getD_extend hblock (by omega) (by omega),
    show 15 + n - 1 = 16 + n - 2 by omega, show 15 + n - 6 = 16 + n - 7 by omega,
    show 15 + n - 14 = 16 + n - 15 by omega, show 15 + n - 15 = 16 + n - 16 by omega]

end

/-! ## Rounds with a window of sixteen words -/

/-- Word `i` is in slot `i` modulo 16; from the sixteenth on it is computed there first. -/
def roll (w : List Word) (i : Nat) : List Word :=
  if i < 16 then w
  else w.set (i % 16) (add (add (add (w.getD (i % 16) 0) (smallSigma0 (w.getD ((i - 15) % 16) 0)))
    (w.getD ((i - 7) % 16) 0)) (smallSigma1 (w.getD ((i - 2) % 16) 0)))

def rolledRound (sw : State × List Word) (i : Nat) : State × List Word :=
  let w := roll sw.2 i
  (round sw.1 (roundConstants.getD i 0, w.getD (i % 16) 0), w)

def State.plus (s t : State) : State :=
  ⟨add s.a t.a, add s.b t.b, add s.c t.c, add s.d t.d, add s.e t.e, add s.f t.f, add s.g t.g, add s.h t.h⟩

def rolled (s : State) (block : List Word) : State :=
  s.plus ((List.range 64).foldl rolledRound (s, block)).1

/-- Before round `n` the window holds the sixteen words up to the later of `n` and 16. -/
def Window (block : List Word) (n : Nat) (w : List Word) : Prop :=
  w.length = 16 ∧ ∀ t < max n 16, max n 16 ≤ t + 16 → w.getD (t % 16) 0 = scheduleWord block t

theorem Window.roll {block w : List Word} {n : Nat} (hblock : block.length = 16) (h : Window block n w) (hn : n < 64) :
    Window block (n + 1) (roll w n) ∧ (Sha256.roll w n).getD (n % 16) 0 = scheduleWord block n := by
  obtain ⟨hlen, hslot⟩ := h
  unfold Sha256.roll
  by_cases hsmall : n < 16
  · rw [if_pos hsmall]
    refine ⟨⟨hlen, fun t ht ht' => hslot t ?_ ?_⟩, hslot n ?_ ?_⟩ <;> omega
  · rw [if_neg hsmall]
    have hnew : add (add (add (w.getD (n % 16) 0) (smallSigma0 (w.getD ((n - 15) % 16) 0)))
        (w.getD ((n - 7) % 16) 0)) (smallSigma1 (w.getD ((n - 2) % 16) 0)) = scheduleWord block n := by
      have hold : w.getD (n % 16) 0 = scheduleWord block (n - 16) := by
        rw [← hslot (n - 16) (by omega) (by omega)]
        congr 1
        omega
      rw [hold, hslot (n - 15) (by omega) (by omega), hslot (n - 7) (by omega) (by omega),
        hslot (n - 2) (by omega) (by omega), add_assoc_schedule, scheduleWord_ge hblock (by omega) hn]
    rw [hnew]
    have hself : (w.set (n % 16) (scheduleWord block n)).getD (n % 16) 0 = scheduleWord block n := by
      rw [List.getD_eq_getElem _ _ (by rw [List.length_set]; omega), List.getElem_set_self]
    refine ⟨⟨by rw [List.length_set, hlen], fun t ht ht' => ?_⟩, hself⟩
    by_cases htn : t = n
    · rw [htn]
      exact hself
    · have hne : n % 16 ≠ t % 16 := by omega
      rw [List.getD_eq_getElem?_getD, List.getElem?_set_ne hne, ← List.getD_eq_getElem?_getD]
      exact hslot t (by omega) (by omega)

theorem zip_schedule {block : List Word} (hblock : block.length = 16) :
    roundConstants.zip (schedule block) = (List.range 64).map fun i =>
      (roundConstants.getD i 0, scheduleWord block i) := by
  have hlen : (schedule block).length = 64 := by
    have := length_scheduled block 48
    rw [hblock] at this
    exact this
  refine List.ext_getElem (by rw [List.length_zip, hlen]; rfl) fun i h _ => ?_
  rw [List.length_zip, hlen] at h
  have hi : i < 64 := by omega
  rw [List.getElem_zip, List.getElem_map, List.getElem_range, scheduleWord,
    List.getD_eq_getElem _ _ (show i < roundConstants.length from hi), List.getD_eq_getElem _ _ (by omega)]

/-- The rounds so far, and the window. -/
theorem rolled_upTo {block : List Word} (hblock : block.length = 16) (s : State) : ∀ n ≤ 64,
    ((List.range n).foldl rolledRound (s, block)).1 =
        ((List.range n).map fun i => (roundConstants.getD i 0, scheduleWord block i)).foldl round s ∧
      Window block n ((List.range n).foldl rolledRound (s, block)).2
  | 0, _ => ⟨rfl, hblock, fun t ht _ => by
      rw [Nat.mod_eq_of_lt (by omega)]
      exact (scheduleWord_lt hblock (by omega)).symm⟩
  | n + 1, hn => by
    obtain ⟨hrounds, hwindow⟩ := rolled_upTo hblock s n (by omega)
    obtain ⟨hnext, hword⟩ := hwindow.roll hblock (by omega)
    rw [List.range_succ, List.foldl_append, List.map_append, List.foldl_append]
    simp only [List.foldl_cons, List.foldl_nil, List.map_cons, List.map_nil, rolledRound]
    rw [hword, hrounds]
    exact ⟨rfl, hnext⟩

/-- **Sixteen words are enough.** -/
theorem rolled_eq_compress {block : List Word} (hblock : block.length = 16) (s : State) :
    rolled s block = compress s block := by
  rw [rolled, (rolled_upTo hblock s 64 (Nat.le_refl _)).1, ← zip_schedule hblock]
  rfl

/-! ## Words of bytes -/

theorem length_words : ∀ l : List UInt8, (words l).length = l.length / 4
  | a :: b :: c :: d :: l => by
    rw [words, List.length_cons, length_words l]
    simp only [List.length_cons]
    omega
  | [] => by simp [words]
  | [_] => by simp [words]
  | [_, _] => by simp [words]
  | [_, _, _] => by simp [words]

theorem words_append : ∀ (l l' : List UInt8), l.length % 4 = 0 → words (l ++ l') = words l ++ words l'
  | a :: b :: c :: d :: l, l', h => by
    simp only [List.length_cons] at h
    simp only [List.cons_append, words, words_append l l' (by omega)]
  | [], _, _ => rfl
  | [_], _, h => by simp at h
  | [_, _], _, h => by simp at h
  | [_, _, _], _, h => by simp at h

/-- A word is four bytes, the first the highest. -/
theorem getD_words : ∀ (l : List UInt8) (i : Nat), i < l.length / 4 → (words l).getD i 0 =
    (l.getD (4 * i) 0).toNat * 2 ^ 24 + (l.getD (4 * i + 1) 0).toNat * 2 ^ 16 + (l.getD (4 * i + 2) 0).toNat * 2 ^ 8 +
      (l.getD (4 * i + 3) 0).toNat
  | _ :: _ :: _ :: _ :: _, 0, _ => rfl
  | a :: b :: c :: d :: l, i + 1, h => by
    simp only [List.length_cons] at h
    exact getD_words l i (by omega)
  | [], _, h => by simp at h
  | [_], _, h => by simp at h
  | [_, _], _, h => by simp at h
  | [_, _, _], _, h => by simp at h

/-! ## The padded message -/

def numBlocks (len : Nat) : Nat := (len + 72) / 64

/-- The padded message without the length. -/
def body (msg : List UInt8) : List UInt8 := msg ++ 0x80 :: List.replicate ((119 - msg.length % 64) % 64) 0

def lengthBytes (bits : Nat) : List UInt8 := (List.range 8).map fun i => UInt8.ofNat (bits / 2 ^ (56 - 8 * i) % 256)

theorem pad_eq (msg : List UInt8) : pad msg = body msg ++ lengthBytes (msg.length * 8) := rfl

theorem length_body (msg : List UInt8) : (body msg).length + 8 = numBlocks msg.length * 64 := by
  simp only [body, numBlocks, List.length_append, List.length_cons, List.length_replicate]
  omega

theorem length_pad (msg : List UInt8) : (pad msg).length = numBlocks msg.length * 64 := by
  rw [pad_eq, List.length_append, ← length_body]
  rfl

/-- The message, the marker, zeros. -/
theorem getD_body (msg : List UInt8) (j : Nat) :
    (body msg).getD j 0 = if j < msg.length then msg.getD j 0 else if j = msg.length then 0x80 else 0 := by
  unfold body
  by_cases hlt : j < msg.length
  · rw [if_pos hlt, List.getD_append _ _ _ _ hlt]
  · rw [if_neg hlt, List.getD_append_right _ _ _ _ (by omega)]
    by_cases heq : j = msg.length
    · rw [if_pos heq, heq, Nat.sub_self]
      rfl
    · rw [if_neg heq]
      obtain ⟨k, hk⟩ := Nat.exists_eq_add_of_lt (Nat.lt_of_le_of_ne (Nat.le_of_not_lt hlt) (Ne.symm heq))
      rw [show j - msg.length = k + 1 by omega, List.getD_cons_succ, List.getD_eq_getElem?_getD,
        List.getElem?_getD_replicate_default_eq]

theorem lengthBytes_eq (bits : Nat) : lengthBytes bits =
    [UInt8.ofNat (bits / 72057594037927936 % 256), UInt8.ofNat (bits / 281474976710656 % 256),
     UInt8.ofNat (bits / 1099511627776 % 256), UInt8.ofNat (bits / 4294967296 % 256),
       UInt8.ofNat (bits / 16777216 % 256),
     UInt8.ofNat (bits / 65536 % 256), UInt8.ofNat (bits / 256 % 256), UInt8.ofNat (bits % 256)] := by
  simp [lengthBytes, List.range_succ]

theorem words_lengthBytes (bits : Nat) :
    words (lengthBytes bits) = [bits / 4294967296 % 4294967296, bits % 4294967296] := by
  have hbyte : ∀ n, (UInt8.ofNat (n % 256)).toNat = n % 256 := fun n =>
    UInt8.toNat_ofNat_of_lt' (Nat.mod_lt _ (by decide))
  rw [lengthBytes_eq]
  simp only [words, hbyte]
  congr 1
  · show (_ : Nat) = _
    omega
  · congr 1
    show (_ : Nat) = _
    omega

theorem words_pad (msg : List UInt8) :
    words (pad msg) = words (body msg) ++ [msg.length * 8 / 4294967296 % 4294967296, msg.length * 8 % 4294967296] := by
  have hlen := length_body msg
  rw [pad_eq, words_append _ _ (by omega), words_lengthBytes]

/-! ## The digest block by block -/

def State.bytes (s : State) : List UInt8 := [s.a, s.b, s.c, s.d, s.e, s.f, s.g, s.h].flatMap wordBytes

/-- The words of block `b`. -/
def blockWords (msg : List UInt8) (b : Nat) : List Word := ((words (pad msg)).drop (16 * b)).take 16

theorem length_words_pad (msg : List UInt8) : (words (pad msg)).length = 16 * numBlocks msg.length := by
  rw [length_words, length_pad]
  omega

theorem length_blockWords {msg : List UInt8} {b : Nat} (hb : b < numBlocks msg.length) :
    (blockWords msg b).length = 16 := by
  rw [blockWords, List.length_take, List.length_drop, length_words_pad]
  omega

/-- The words of a block, one load each. -/
theorem blockWords_eq_map {msg : List UInt8} {b : Nat} (hb : b < numBlocks msg.length) :
    blockWords msg b = (List.range 16).map fun k => (words (pad msg)).getD (16 * b + k) 0 := by
  refine List.ext_getElem (by rw [length_blockWords hb]; rfl) fun k hk _ => ?_
  rw [length_blockWords hb] at hk
  have hlen := length_words_pad msg
  rw [List.getElem_map, List.getElem_range, List.getD_eq_getElem _ _ (by omega)]
  simp only [blockWords, List.getElem_take, List.getElem_drop]

theorem blocks_eq_foldl : ∀ (n : Nat) (s : State) (w : List Word),
    blocks n s w = (List.range n).foldl (fun s b => compress s ((w.drop (16 * b)).take 16)) s
  | 0, _, _ => rfl
  | n + 1, s, w => by
    rw [blocks, blocks_eq_foldl n, List.range_succ_eq_map, List.foldl_cons, List.foldl_map]
    simp only [List.drop_drop, Nat.mul_zero, List.drop_zero, Nat.mul_succ, Nat.add_comm 16]

/-- **The digest, as a loop over the blocks.** -/
theorem digest_eq (msg : List UInt8) : digest msg =
    ((List.range (numBlocks msg.length)).foldl (fun s b => compress s (blockWords msg b)) initial).bytes := by
  have hdigest : digest msg = (blocks ((words (pad msg)).length / 16) initial (words (pad msg))).bytes := rfl
  rw [hdigest, blocks_eq_foldl, length_words_pad, Nat.mul_div_cancel_left _ (by omega)]
  rfl

end Sha256
