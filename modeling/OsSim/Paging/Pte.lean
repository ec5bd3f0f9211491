import OsSim.Lib.BitField

namespace OsSim.Paging
open BitField

/-! ## Bit operations of bitops.h -/

def bit (nr : Nat) : BitVec 32 := 1#32 <<< nr

/-- BITS_PER_LONG is 32: CONFIG_64BIT is not defined. -/
def genmask (h l : Nat) : BitVec 32 := mask 32 h l

def nbits2 (n : Nat) : Nat := if n &&& 0x2 ≠ 0 then 1 else 0
def nbits4 (n : Nat) : Nat := if n &&& 0xC ≠ 0 then 2 + nbits2 (n >>> 2) else nbits2 n
def nbits8 (n : Nat) : Nat := if n &&& 0xF0 ≠ 0 then 4 + nbits4 (n >>> 4) else nbits4 n
def nbits16 (n : Nat) : Nat := if n &&& 0xFF00 ≠ 0 then 8 + nbits8 (n >>> 8) else nbits8 n
def nbits32 (n : Nat) : Nat := if n &&& 0xFFFF0000 ≠ 0 then 16 + nbits16 (n >>> 16) else nbits16 n
def nbits (n : Nat) : Nat := if n = 0 then 0 else nbits32 n

def setbit (v m : BitVec 32) : BitVec 32 := v ||| m
def clrbit (v m : BitVec 32) : BitVec 32 := v &&& ~~~m

/-! ## Layout of addresses and page table entries -/

def pagingCpuBusWidth : Nat := 22
def pagingPagesz : Nat := 256
def pagingMaxPgn : Nat := (2 ^ pagingCpuBusWidth + pagingPagesz - 1) / pagingPagesz

def pagingPtePresentMask : BitVec 32 := bit 31
def pagingPteSwappedMask : BitVec 32 := bit 30

def pagingPteFpnLobit : Nat := 0
def pagingPteFpnHibit : Nat := 12
def pagingPteSwptypLobit : Nat := 0
def pagingPteSwptypHibit : Nat := 4
def pagingPteSwpoffLobit : Nat := 5
def pagingPteSwpoffHibit : Nat := 25

def pagingPteFpnMask : BitVec 32 := genmask pagingPteFpnHibit pagingPteFpnLobit
def pagingPteSwptypMask : BitVec 32 := genmask pagingPteSwptypHibit pagingPteSwptypLobit
def pagingPteSwpoffMask : BitVec 32 := genmask pagingPteSwpoffHibit pagingPteSwpoffLobit

def pagingAddrOffstLobit : Nat := 0
def pagingAddrOffstHibit : Nat := nbits pagingPagesz - 1
def pagingAddrPgnLobit : Nat := nbits pagingPagesz
def pagingAddrPgnHibit : Nat := pagingCpuBusWidth - 1
def pagingAddrFpnLobit : Nat := nbits pagingPagesz

def pagingOffstMask : BitVec 32 := genmask pagingAddrOffstHibit pagingAddrOffstLobit
def pagingPgnMask : BitVec 32 := genmask pagingAddrPgnHibit pagingAddrPgnLobit

def pagingOffst (x : BitVec 32) : Nat := (getval x pagingOffstMask pagingAddrOffstLobit).toNat
def pagingPgn (x : BitVec 32) : Nat := (getval x pagingPgnMask pagingAddrPgnLobit).toNat
def pagingFpn (pte : BitVec 32) : Nat := (getval pte pagingPteFpnMask pagingPteFpnLobit).toNat
def pagingSwp (pte : BitVec 32) : Nat := (getval pte pagingPteSwpoffMask pagingPteSwpoffLobit).toNat

def pagingPagePresent (pte : BitVec 32) : Bool := (pte &&& pagingPtePresentMask) != 0#32

/-- The swapped bit. No function of the source reads it: a page that is not present counts as swapped. -/
def pagingPageSwapped (pte : BitVec 32) : Bool := (pte &&& pagingPteSwappedMask) != 0#32

/-! ## Writing page table entries -/

def pteSetSwap (pte : BitVec 32) (swptyp swpoff : Nat) : BitVec 32 :=
  let pte := clrbit pte pagingPtePresentMask
  let pte := setbit pte pagingPteSwappedMask
  let pte := setval pte (BitVec.ofNat 32 swptyp) pagingPteSwptypMask pagingPteSwptypLobit
  setval pte (BitVec.ofNat 32 swpoff) pagingPteSwpoffMask pagingPteSwpoffLobit

def pteSetFpn (pte : BitVec 32) (fpn : Nat) : BitVec 32 :=
  let pte := setbit pte pagingPtePresentMask
  let pte := clrbit pte pagingPteSwappedMask
  setval pte (BitVec.ofNat 32 fpn) pagingPteFpnMask pagingPteFpnLobit

/-! ## What an entry says after a write -/

theorem getLsbD_bit (nr : Nat) (i : Nat) :
    (bit nr).getLsbD i = (decide (i < 32) && decide (i = nr)) := by
  simp only [bit, BitVec.getLsbD_shiftLeft, BitVec.getLsbD_one]
  by_cases position : i = nr
  · simp [position]
  · by_cases below : i < nr
    · simp [position, below]
    · have shifted : i - nr ≠ 0 := by omega
      simp [position, shifted]

theorem and_bit_ne_zero (pte : BitVec 32) (nr : Nat) (inside : nr < 32) :
    ((pte &&& bit nr) != 0#32) = pte.getLsbD nr := by
  cases flag : pte.getLsbD nr with
  | true =>
      rw [bne_iff_ne]
      intro zero
      have cleared : (pte &&& bit nr).getLsbD nr = false := by rw [zero]; exact BitVec.getLsbD_zero
      rw [BitVec.getLsbD_and, getLsbD_bit, flag] at cleared
      simp [inside] at cleared
  | false =>
      have zero : pte &&& bit nr = 0#32 := by
        apply BitVec.eq_of_getLsbD_eq
        intro i _
        by_cases position : i = nr
        · simp [position, flag]
        · simp [getLsbD_bit, position]
      simp [zero]

theorem pagingPagePresent_eq (pte : BitVec 32) : pagingPagePresent pte = pte.getLsbD 31 :=
  and_bit_ne_zero pte 31 (by decide)

theorem pagingPageSwapped_eq (pte : BitVec 32) : pagingPageSwapped pte = pte.getLsbD 30 :=
  and_bit_ne_zero pte 30 (by decide)

theorem getLsbD_pteSetFpn (pte : BitVec 32) (fpn i : Nat) :
    (pteSetFpn pte fpn).getLsbD i =
      if i ≤ 12 then (BitVec.ofNat 32 fpn).getLsbD i
      else if i = 31 then true else if i = 30 then false else pte.getLsbD i := by
  simp only [pteSetFpn, pagingPteFpnMask, pagingPteFpnHibit, pagingPteFpnLobit, genmask]
  rw [getLsbD_setval (by decide)]
  by_cases field : i ≤ 12
  · simp [field]
  · simp only [field, and_false, if_false, clrbit, setbit, BitVec.getLsbD_and, BitVec.getLsbD_not,
      BitVec.getLsbD_or, pagingPtePresentMask, pagingPteSwappedMask, getLsbD_bit]
    by_cases top : i = 31
    · simp [top]
    · by_cases next : i = 30
      · simp [next]
      · by_cases bound : i < 32
        · simp [top, next, bound]
        · simp [top, next, BitVec.getLsbD_of_ge pte i (by omega)]

theorem getLsbD_pteSetSwap (pte : BitVec 32) (swptyp swpoff i : Nat) :
    (pteSetSwap pte swptyp swpoff).getLsbD i =
      if 5 ≤ i ∧ i ≤ 25 then (BitVec.ofNat 32 swpoff).getLsbD (i - 5)
      else if i ≤ 4 then (BitVec.ofNat 32 swptyp).getLsbD i
      else if i = 31 then false else if i = 30 then true else pte.getLsbD i := by
  simp only [pteSetSwap, pagingPteSwpoffMask, pagingPteSwpoffHibit, pagingPteSwpoffLobit,
    pagingPteSwptypMask, pagingPteSwptypHibit, pagingPteSwptypLobit, genmask]
  rw [getLsbD_setval (by decide), getLsbD_setval (by decide)]
  by_cases offset : 5 ≤ i ∧ i ≤ 25
  · simp [offset]
  · by_cases type : i ≤ 4
    · simp [offset, type]
    · simp only [offset, type, and_false, if_false, clrbit, setbit, BitVec.getLsbD_and,
        BitVec.getLsbD_not, BitVec.getLsbD_or, pagingPtePresentMask, pagingPteSwappedMask,
        getLsbD_bit]
      by_cases top : i = 31
      · simp [top]
      · by_cases next : i = 30
        · simp [next]
        · by_cases bound : i < 32
          · simp [top, next, bound]
          · simp [top, next, BitVec.getLsbD_of_ge pte i (by omega)]

@[simp] theorem pagingPagePresent_pteSetFpn (pte : BitVec 32) (fpn : Nat) :
    pagingPagePresent (pteSetFpn pte fpn) = true := by
  rw [pagingPagePresent_eq, getLsbD_pteSetFpn]
  simp

@[simp] theorem pagingPageSwapped_pteSetFpn (pte : BitVec 32) (fpn : Nat) :
    pagingPageSwapped (pteSetFpn pte fpn) = false := by
  rw [pagingPageSwapped_eq, getLsbD_pteSetFpn]
  simp

@[simp] theorem pagingPagePresent_pteSetSwap (pte : BitVec 32) (swptyp swpoff : Nat) :
    pagingPagePresent (pteSetSwap pte swptyp swpoff) = false := by
  rw [pagingPagePresent_eq, getLsbD_pteSetSwap]
  simp

@[simp] theorem pagingPageSwapped_pteSetSwap (pte : BitVec 32) (swptyp swpoff : Nat) :
    pagingPageSwapped (pteSetSwap pte swptyp swpoff) = true := by
  rw [pagingPageSwapped_eq, getLsbD_pteSetSwap]
  simp

/-- An entry holds 13 bits of a RAM frame number. -/
theorem pagingFpn_pteSetFpn (pte : BitVec 32) (fpn : Nat) :
    pagingFpn (pteSetFpn pte fpn) = fpn % 2 ^ 13 := by
  simp only [pagingFpn, pteSetFpn, pagingPteFpnMask, pagingPteFpnHibit, pagingPteFpnLobit, genmask]
  rw [toNat_getval_setval (by decide), BitVec.toNat_ofNat]
  omega

/-- An entry holds 21 bits of a swap frame number. -/
theorem pagingSwp_pteSetSwap (pte : BitVec 32) (swptyp swpoff : Nat) :
    pagingSwp (pteSetSwap pte swptyp swpoff) = swpoff % 2 ^ 21 := by
  simp only [pagingSwp, pteSetSwap, pagingPteSwpoffMask, pagingPteSwpoffHibit,
    pagingPteSwpoffLobit, genmask]
  rw [toNat_getval_setval (by decide), BitVec.toNat_ofNat]
  omega

theorem pagingPgn_eq (x : BitVec 32) : pagingPgn x = x.toNat / 256 % 16384 := by
  exact toNat_getval (by decide) (by decide) x

theorem pagingOffst_eq (x : BitVec 32) : pagingOffst x = x.toNat % 256 := by
  have field : pagingOffst x = x.toNat / 2 ^ 0 % 2 ^ 8 := toNat_getval (by decide) (by decide) x
  simpa using field

theorem pagingOffst_lt (x : BitVec 32) : pagingOffst x < pagingPagesz := by
  rw [pagingOffst_eq, show pagingPagesz = 256 from rfl]
  omega

end OsSim.Paging
