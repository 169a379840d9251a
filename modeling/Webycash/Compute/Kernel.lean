import Mathlib.Data.Nat.Bitwise
import Webycash.Lib.Sha256Laws
/-!
# The compression loop of the two GPU kernels

The WGSL and the CUDA kernel run the same loop over 32-bit words, with a rolling window of sixteen, and
bring their own rotation and their own `ch` and `maj`: shifts and Boolean operators in WGSL, a funnel
shift and two lookup tables in CUDA. `compressBlock_state` says that with either set one block is one
`Sha256.compress`.

| here | there |
| --- | --- |
| `K`, `round`, `roll`, `compressBlock` | wgpu_compute.rs:371 and 426, cuda.rs:36 and 92 |
| `Wgsl.primitives`                     | `rotr`, `ch_val`, `maj_val` (wgpu_compute.rs:398, 441, 444) |
| `Cuda.primitives`                     | `rotr`, `ch`, `maj` (cuda.rs:18) |
-/

namespace Webycash.Compute

/-! ## The loop -/

def K : List UInt32 :=
  [0x428a2f98, 0x71374491, 0xb5c0fbcf, 0xe9b5dba5, 0x3956c25b, 0x59f111f1, 0x923f82a4, 0xab1c5ed5,
   0xd807aa98, 0x12835b01, 0x243185be, 0x550c7dc3, 0x72be5d74, 0x80deb1fe, 0x9bdc06a7, 0xc19bf174,
   0xe49b69c1, 0xefbe4786, 0x0fc19dc6, 0x240ca1cc, 0x2de92c6f, 0x4a7484aa, 0x5cb0a9dc, 0x76f988da,
   0x983e5152, 0xa831c66d, 0xb00327c8, 0xbf597fc7, 0xc6e00bf3, 0xd5a79147, 0x06ca6351, 0x14292967,
   0x27b70a85, 0x2e1b2138, 0x4d2c6dfc, 0x53380d13, 0x650a7354, 0x766a0abb, 0x81c2c92e, 0x92722c85,
   0xa2bfe8a1, 0xa81a664b, 0xc24b8b70, 0xc76c51a3, 0xd192e819, 0xd6990624, 0xf40e3585, 0x106aa070,
   0x19a4c116, 0x1e376c08, 0x2748774c, 0x34b0bcb5, 0x391c0cb3, 0x4ed8aa4a, 0x5b9cca4f, 0x682e6ff3,
   0x748f82ee, 0x78a5636f, 0x84c87814, 0x8cc70208, 0x90befffa, 0xa4506ceb, 0xbef9a3f7, 0xc67178f2]

structure Regs where
  (a b c d e f g h : UInt32)

def Regs.initial : Regs :=
  ⟨0x6a09e667, 0xbb67ae85, 0x3c6ef372, 0xa54ff53a, 0x510e527f, 0x9b05688c, 0x1f83d9ab, 0x5be0cd19⟩

def Regs.plus (r s : Regs) : Regs := ⟨r.a + s.a, r.b + s.b, r.c + s.c, r.d + s.d, r.e + s.e, r.f + s.f,
    r.g + s.g, r.h + s.h⟩

/-- What a kernel brings of its own. -/
structure Primitives where
  rotr : UInt32 → UInt32 → UInt32
  ch : UInt32 → UInt32 → UInt32 → UInt32
  maj : UInt32 → UInt32 → UInt32 → UInt32

section

variable (p : Primitives)

def round (r : Regs) (k wi : UInt32) : Regs :=
  let S1 := p.rotr r.e 6 ^^^ p.rotr r.e 11 ^^^ p.rotr r.e 25
  let temp1 := r.h + S1 + p.ch r.e r.f r.g + k + wi
  let S0 := p.rotr r.a 2 ^^^ p.rotr r.a 13 ^^^ p.rotr r.a 22
  let temp2 := S0 + p.maj r.a r.b r.c
  ⟨temp1 + temp2, r.a, r.b, r.c, r.d + temp1, r.e, r.f, r.g⟩

/-- From round 16 on a slot of `w` is overwritten before it is used. -/
def roll (w : List UInt32) (i : Nat) : List UInt32 :=
  if i < 16 then w
  else
    let w15 := w.getD ((i - 15) &&& 15) 0
    let w2 := w.getD ((i - 2) &&& 15) 0
    let s0 := p.rotr w15 7 ^^^ p.rotr w15 18 ^^^ (w15 >>> 3)
    let s1 := p.rotr w2 17 ^^^ p.rotr w2 19 ^^^ (w2 >>> 10)
    w.set (i &&& 15) (w.getD (i &&& 15) 0 + s0 + w.getD ((i - 7) &&& 15) 0 + s1)

def step (rw : Regs × List UInt32) (i : Nat) : Regs × List UInt32 :=
  let w := roll p rw.2 i
  (round p rw.1 (K.getD i 0) (w.getD (i &&& 15) 0), w)

/-- The body of the loop over the blocks. -/
def compressBlock (h : Regs) (w : List UInt32) : Regs := h.plus ((List.range 64).foldl (step p) (h, w)).1

end

/-! ## The two sets of primitives -/

def Wgsl.rotr (x n : UInt32) : UInt32 := (x >>> n) ||| (x <<< (32 - n))

def Wgsl.primitives : Primitives where
  rotr := Wgsl.rotr
  ch e f g := (e &&& f) ^^^ (~~~e &&& g)
  maj a b c := (a &&& b) ^^^ (a &&& c) ^^^ (b &&& c)

/-- `__funnelshift_r`: the low word of `hi:lo` shifted right by `shift` modulo 32. -/
def Cuda.funnelshiftR (lo hi shift : UInt32) : UInt32 :=
  UInt32.ofNat ((hi.toNat * 4294967296 + lo.toNat) >>> (shift.toNat % 32))

/-- `lop3.b32`: bit by bit, the entry of the table `immLut` that the three bits name, `a` the highest. -/
def Cuda.lop3 (immLut : Nat) (a b c : UInt32) : UInt32 :=
  ⟨(BitVec.ofBoolListLE ((List.range 32).map fun i => immLut.testBit
    (4 * (a.toNat.testBit i).toNat + 2 * (b.toNat.testBit i).toNat + (c.toNat.testBit i).toNat))).setWidth 32⟩

def Cuda.primitives : Primitives where
  rotr x n := Cuda.funnelshiftR x x n
  ch x y z := Cuda.lop3 0xCA x y z
  maj x y z := Cuda.lop3 0xE8 x y z

/-! ## Against the reference -/

/-- The primitives are those of FIPS 180-4. -/
structure Primitives.Sound (p : Primitives) : Prop where
  rotr : ∀ x n, 0 < n.toNat → n.toNat < 32 → (p.rotr x n).toNat = Sha256.rotr n.toNat x.toNat
  ch : ∀ x y z, (p.ch x y z).toNat = Sha256.ch x.toNat y.toNat z.toNat
  maj : ∀ x y z, (p.maj x y z).toNat = Sha256.maj x.toNat y.toNat z.toNat

theorem toNat_ch (x y z : UInt32) : ((x &&& y) ^^^ (~~~x &&& z)).toNat = Sha256.ch x.toNat y.toNat z.toNat := by
  have hnot : (~~~x).toNat = 4294967295 - x.toNat := UInt32.toNat_not x
  rw [UInt32.toNat_xor, UInt32.toNat_and, UInt32.toNat_and, hnot]
  rfl

theorem toNat_maj (x y z : UInt32) : ((x &&& y) ^^^ (x &&& z) ^^^ (y &&& z)).toNat =
    Sha256.maj x.toNat y.toNat z.toNat := by
  rw [UInt32.toNat_xor, UInt32.toNat_xor, UInt32.toNat_and, UInt32.toNat_and, UInt32.toNat_and]
  rfl

theorem Wgsl.toNat_rotr {x n : UInt32} (hn : 0 < n.toNat) (hn' : n.toNat < 32) :
    (Wgsl.rotr x n).toNat = Sha256.rotr n.toNat x.toNat := by
  have hsub : (32 - n).toNat = 32 - n.toNat := UInt32.toNat_sub_of_le 32 n (UInt32.le_iff_toNat_le.2 (by exact hn'.le))
  rw [Wgsl.rotr, UInt32.toNat_or, UInt32.toNat_shiftRight, UInt32.toNat_shiftLeft, hsub, Nat.mod_eq_of_lt hn',
    Nat.mod_eq_of_lt (show 32 - n.toNat < 32 by omega)]
  rfl

theorem Wgsl.sound : Wgsl.primitives.Sound where
  rotr _ _ := Wgsl.toNat_rotr
  ch := toNat_ch
  maj := toNat_maj

/-- The funnel shift of a word beside itself is its rotation, bit by bit. -/
theorem Cuda.toNat_funnelshiftR {x n : UInt32} (hn : 0 < n.toNat) (hn' : n.toNat < 32) :
    (Cuda.funnelshiftR x x n).toNat = Sha256.rotr n.toNat x.toNat := by
  have hx : x.toNat < 2 ^ 32 := x.toNat_lt
  have hrotr : Sha256.rotr n.toNat x.toNat = x.toNat >>> n.toNat ||| (x.toNat <<< (32 - n.toNat)) % 2 ^ 32 := rfl
  rw [Cuda.funnelshiftR, UInt32.toNat_ofNat', Nat.mod_eq_of_lt hn', hrotr]
  refine Nat.eq_of_testBit_eq fun i => ?_
  rw [Nat.testBit_mod_two_pow, Nat.testBit_shiftRight, Nat.testBit_or, Nat.testBit_shiftRight, Nat.testBit_mod_two_pow,
    Nat.testBit_shiftLeft, show x.toNat * 4294967296 + x.toNat = 2 ^ 32 * x.toNat + x.toNat by omega,
    Nat.testBit_two_pow_mul_add _ hx]
  by_cases hi : i < 32
  · by_cases hlow : n.toNat + i < 32
    · simp [hi, hlow, show ¬ 32 - n.toNat ≤ i by omega]
    · have hhigh : x.toNat.testBit (n.toNat + i) = false :=
        Nat.testBit_lt_two_pow (Nat.lt_of_lt_of_le hx (Nat.pow_le_pow_right (by omega) (by omega)))
      simp [hi, hlow, hhigh, show 32 - n.toNat ≤ i by omega, show n.toNat + i - 32 = i - (32 - n.toNat) by omega]
  · have hhigh : x.toNat.testBit (n.toNat + i) = false :=
      Nat.testBit_lt_two_pow (Nat.lt_of_lt_of_le hx (Nat.pow_le_pow_right (by omega) (by omega)))
    simp [hi, hhigh]

/-- A bit of the result is an entry of the table. -/
theorem Cuda.getLsbD_lop3 (immLut : Nat) (x y z : UInt32) {i : Nat} (hi : i < 32) :
    (Cuda.lop3 immLut x y z).toBitVec.getLsbD i = immLut.testBit (4 * (x.toBitVec.getLsbD i).toNat +
      2 * (y.toBitVec.getLsbD i).toNat + (z.toBitVec.getLsbD i).toNat) := by
  rw [Cuda.lop3, BitVec.getLsbD_setWidth, BitVec.getLsbD_ofBoolListLE, List.getD_eq_getElem _ _ (by simpa using hi),
    List.getElem_map, List.getElem_range, decide_eq_true hi, Bool.true_and]
  rfl

example : Cuda.lop3 0xCA 0xF0 0xCC 0xAA = 0xCA := by decide

/-- `0xCA` is the table of `ch`. -/
theorem Cuda.lop3_ch (x y z : UInt32) : Cuda.lop3 0xCA x y z = (x &&& y) ^^^ (~~~x &&& z) := by
  refine UInt32.toBitVec_inj.1 (BitVec.eq_of_getLsbD_eq fun i hi => ?_)
  rw [Cuda.getLsbD_lop3 _ _ _ _ hi]
  simp only [UInt32.toBitVec_xor, UInt32.toBitVec_and, UInt32.toBitVec_not, BitVec.getLsbD_xor, BitVec.getLsbD_and,
    BitVec.getLsbD_not, hi, decide_true, Bool.true_and]
  cases x.toBitVec.getLsbD i <;> cases y.toBitVec.getLsbD i <;> cases z.toBitVec.getLsbD i <;> decide

/-- `0xE8` is that of `maj`. -/
theorem Cuda.lop3_maj (x y z : UInt32) : Cuda.lop3 0xE8 x y z = (x &&& y) ^^^ (x &&& z) ^^^ (y &&& z) := by
  refine UInt32.toBitVec_inj.1 (BitVec.eq_of_getLsbD_eq fun i hi => ?_)
  rw [Cuda.getLsbD_lop3 _ _ _ _ hi]
  simp only [UInt32.toBitVec_xor, UInt32.toBitVec_and, BitVec.getLsbD_xor, BitVec.getLsbD_and]
  cases x.toBitVec.getLsbD i <;> cases y.toBitVec.getLsbD i <;> cases z.toBitVec.getLsbD i <;> decide

theorem Cuda.sound : Cuda.primitives.Sound where
  rotr _ _ := Cuda.toNat_funnelshiftR
  ch x y z := by
    rw [← toNat_ch, ← Cuda.lop3_ch]
    rfl
  maj x y z := by
    rw [← toNat_maj, ← Cuda.lop3_maj]
    rfl

/-! ## One block -/

/-- The registers as numbers. -/
def Regs.state (r : Regs) : Sha256.State :=
  ⟨r.a.toNat, r.b.toNat, r.c.toNat, r.d.toNat, r.e.toNat, r.f.toNat, r.g.toNat, r.h.toNat⟩

theorem initial_state : Regs.initial.state = Sha256.initial := rfl

theorem toNat_add (x y : UInt32) : (x + y).toNat = Sha256.add x.toNat y.toNat := UInt32.toNat_add x y

theorem plus_state (r s : Regs) : (r.plus s).state = r.state.plus s.state := by
  simp only [Regs.state, Regs.plus, Sha256.State.plus, toNat_add]

theorem getD_map_toNat (w : List UInt32) (i : Nat) : (w.map UInt32.toNat).getD i 0 = (w.getD i 0).toNat :=
  List.getD_map w 0 UInt32.toNat

theorem map_K : K.map UInt32.toNat = Sha256.roundConstants := rfl

variable {p : Primitives} (hp : p.Sound)
include hp

theorem round_state (r : Regs) (k wi : UInt32) : (round p r k wi).state = Sha256.round r.state (k.toNat, wi.toNat) := by
  simp only [Regs.state, round, Sha256.round, toNat_add, hp.ch, hp.maj, UInt32.toNat_xor]
  rw [hp.rotr r.e 6 (by decide) (by decide), hp.rotr r.e 11 (by decide) (by decide),
    hp.rotr r.e 25 (by decide) (by decide),
    hp.rotr r.a 2 (by decide) (by decide), hp.rotr r.a 13 (by decide) (by decide),
      hp.rotr r.a 22 (by decide) (by decide)]
  rfl

theorem roll_map (w : List UInt32) (i : Nat) : (roll p w i).map UInt32.toNat = Sha256.roll (w.map UInt32.toNat) i := by
  have hslot : ∀ j, j &&& 15 = j % 16 := fun j => Nat.and_two_pow_sub_one_eq_mod j 4
  unfold roll Sha256.roll
  by_cases hi : i < 16
  · rw [if_pos hi, if_pos hi]
  · rw [if_neg hi, if_neg hi, List.map_set]
    simp only [hslot, getD_map_toNat, toNat_add, UInt32.toNat_xor]
    rw [hp.rotr _ 7 (by decide) (by decide), hp.rotr _ 18 (by decide) (by decide), hp.rotr _ 17 (by decide) (by decide),
      hp.rotr _ 19 (by decide) (by decide), UInt32.toNat_shiftRight, UInt32.toNat_shiftRight]
    rfl

theorem step_state (rw : Regs × List UInt32) (i : Nat) :
    ((step p rw i).1.state, (step p rw i).2.map UInt32.toNat) =
      Sha256.rolledRound (rw.1.state, rw.2.map UInt32.toNat) i := by
  have hslot : i &&& 15 = i % 16 := Nat.and_two_pow_sub_one_eq_mod i 4
  simp only [step, Sha256.rolledRound, round_state hp, roll_map hp, ← getD_map_toNat, map_K, hslot]

/-- **One block of a kernel is one block of SHA-256.** -/
theorem compressBlock_state (h : Regs) {w : List UInt32} (hw : w.length = 16) :
    (compressBlock p h w).state = Sha256.compress h.state (w.map UInt32.toNat) := by
  have hloop : ∀ (is : List Nat) (rw : Regs × List UInt32),
      ((is.foldl (step p) rw).1.state, (is.foldl (step p) rw).2.map UInt32.toNat) =
        is.foldl Sha256.rolledRound (rw.1.state, rw.2.map UInt32.toNat) := by
    intro is
    induction is with
    | nil => exact fun _ => rfl
    | cons i is ih =>
      intro rw
      rw [List.foldl_cons, List.foldl_cons, ih, step_state hp]
  rw [← Sha256.rolled_eq_compress (by rw [List.length_map, hw]), Sha256.rolled, compressBlock, plus_state]
  exact congrArg (fun rw => h.state.plus rw.1) (hloop (List.range 64) (h, w))

/-- **Loading the blocks of a message gives its digest.** -/
theorem bytes_of_blocks {msg : List UInt8} {load : Nat → Nat → UInt32}
    (hload : ∀ b < Sha256.numBlocks msg.length, ∀ k < 16,
      (load b k).toNat = (Sha256.words (Sha256.pad msg)).getD (16 * b + k) 0) :
    ((List.range (Sha256.numBlocks msg.length)).foldl (fun h b => compressBlock p h ((List.range 16).map (load b)))
      .initial).state.bytes = Sha256.digest msg := by
  have hloop : ∀ n ≤ Sha256.numBlocks msg.length,
      ((List.range n).foldl (fun h b => compressBlock p h ((List.range 16).map (load b))) .initial).state =
        (List.range n).foldl (fun s b => Sha256.compress s (Sha256.blockWords msg b)) Sha256.initial := by
    intro n
    induction n with
    | zero => exact fun _ => initial_state
    | succ n ih =>
      intro hn
      have hblock : ((List.range 16).map (load n)).map UInt32.toNat = Sha256.blockWords msg n := by
        rw [Sha256.blockWords_eq_map hn, List.map_map]
        exact List.map_congr_left fun k hk => hload n hn k (List.mem_range.1 hk)
      rw [List.range_succ (n := n), List.foldl_append, List.foldl_append, List.foldl_cons,
        List.foldl_cons, List.foldl_nil,
        List.foldl_nil, compressBlock_state hp _ (by rw [List.length_map, List.length_range]), ih (by omega), hblock]
  rw [hloop _ (Nat.le_refl _), Sha256.digest_eq]

end Webycash.Compute
