import OsSim.Paging.Pte
import Mathlib.Logic.Function.Basic
import Mathlib.Logic.Function.Iterate

namespace OsSim.Paging

abbrev Byte := BitVec 8

/-- A physical device. No access checks `maxsz`: `storage` is the block of `maxsz` bytes and, from this address on,
stands for the other blocks behind it, which an access there does not change here (see `System.InBlocks`). The frame
lists hold the frame numbers of their nodes. -/
structure Memphy where
  storage : Nat → Byte
  maxsz : Nat
  rdmflg : Bool
  cursor : Nat
  freeFpList : List Nat
  usedFpList : List Nat

/-- The cursor moves `min offset maxsz` times. -/
def memphyMvCsr (mp : Memphy) (offset : Nat) : Memphy :=
  { mp with cursor := (fun cursor => (cursor + 1) % mp.maxsz)^[min offset mp.maxsz] 0 }

def memphySeqRead (mp : Memphy) (addr : Nat) : Option (Byte × Memphy) :=
  if !mp.rdmflg then none
  else
    let mp := memphyMvCsr mp addr
    some (mp.storage addr, mp)

/-- `none` is the return value -1, which leaves the output argument as it was. -/
def memphyRead (mp : Memphy) (addr : Nat) : Option (Byte × Memphy) :=
  if mp.rdmflg then some (mp.storage addr, mp)
  else memphySeqRead mp addr

def memphySeqWrite (mp : Memphy) (addr : Nat) (value : Byte) : Option Memphy :=
  if !mp.rdmflg then none
  else
    let mp := memphyMvCsr mp addr
    some { mp with storage := Function.update mp.storage addr value }

/-- From `maxsz` on the store leaves the block. -/
def memphyWrite (mp : Memphy) (addr : Nat) (data : Byte) : Option Memphy :=
  if mp.rdmflg then some { mp with storage := Function.update mp.storage addr data }
  else memphySeqWrite mp addr data

/-- The next field of a single node is not set; the list is taken to end there. -/
def memphyFormat (mp : Memphy) (pagesz : Nat) : Memphy :=
  { mp with freeFpList := List.range (mp.maxsz / pagesz) }

/-- `storage` is what the memory of the device holds before. -/
def initMemphy (storage : Nat → Byte) (maxSize : Nat) (randomflg : Bool) : Memphy :=
  memphyFormat ⟨storage, maxSize, randomflg, 0, [], []⟩ pagingPagesz

def memphyGetFreefp (mp : Memphy) : Option (Nat × Memphy) :=
  match mp.freeFpList with
  | [] => none
  | fpn :: rest => some (fpn, { mp with freeFpList := rest })

def memphyPutUsedfp (mp : Memphy) (fpn : Nat) : Memphy :=
  { mp with usedFpList := fpn :: mp.usedFpList }

/-- One turn of the copy loop. `data` is declared in the loop and keeps its old bytes when the read fails. -/
def swapCpCell (srcfpn dstfpn : Nat) (data : Byte) (devices : Memphy × Memphy) (cellidx : Nat) :
    Memphy × Memphy :=
  let addrsrc := srcfpn * pagingPagesz + cellidx
  let addrdst := dstfpn * pagingPagesz + cellidx
  let read := (memphyRead devices.1 addrsrc).getD (data, devices.1)
  (read.2, (memphyWrite devices.2 addrdst read.1).getD devices.2)

def swapCpCells (mpsrc : Memphy) (srcfpn : Nat) (mpdst : Memphy) (dstfpn : Nat) (data : Byte)
    (n : Nat) : Memphy × Memphy :=
  (List.range n).foldl (swapCpCell srcfpn dstfpn data) (mpsrc, mpdst)

def swapCpPage (mpsrc : Memphy) (srcfpn : Nat) (mpdst : Memphy) (dstfpn : Nat) (data : Byte) :
    Memphy × Memphy :=
  swapCpCells mpsrc srcfpn mpdst dstfpn data pagingPagesz

/-! ## Reading and writing -/

theorem memphyRead_random {mp : Memphy} (random : mp.rdmflg = true) (addr : Nat) :
    memphyRead mp addr = some (mp.storage addr, mp) := by
  simp [memphyRead, random]

theorem memphyWrite_random {mp : Memphy} (random : mp.rdmflg = true) (addr : Nat) (data : Byte) :
    memphyWrite mp addr data =
      some { mp with storage := Function.update mp.storage addr data } := by
  simp [memphyWrite, random]

/-- A sequential device is never read or written: its functions refuse it. -/
theorem memphyRead_sequential {mp : Memphy} (sequential : mp.rdmflg = false) (addr : Nat) :
    memphyRead mp addr = none := by
  simp [memphyRead, memphySeqRead, sequential]

theorem memphyWrite_sequential {mp : Memphy} (sequential : mp.rdmflg = false) (addr : Nat)
    (data : Byte) : memphyWrite mp addr data = none := by
  simp [memphyWrite, memphySeqWrite, sequential]

/-- What the paging functions leave alone on a device they read or write. -/
structure SameFrames (mp mp' : Memphy) : Prop where
  maxsz : mp'.maxsz = mp.maxsz
  rdmflg : mp'.rdmflg = mp.rdmflg
  freeFpList : mp'.freeFpList = mp.freeFpList
  usedFpList : mp'.usedFpList = mp.usedFpList

theorem SameFrames.refl (mp : Memphy) : SameFrames mp mp := ⟨rfl, rfl, rfl, rfl⟩

theorem SameFrames.trans {mp mp' mp'' : Memphy} (first : SameFrames mp mp')
    (second : SameFrames mp' mp'') : SameFrames mp mp'' :=
  ⟨second.maxsz.trans first.maxsz, second.rdmflg.trans first.rdmflg,
    second.freeFpList.trans first.freeFpList, second.usedFpList.trans first.usedFpList⟩

theorem memphyRead_eq {mp : Memphy} (addr : Nat) (data : Byte) :
    ((memphyRead mp addr).getD (data, mp)).2 = mp := by
  cases random : mp.rdmflg with
  | true => simp [memphyRead_random random]
  | false => simp [memphyRead_sequential random]

theorem memphyWrite_sameFrames (mp : Memphy) (addr : Nat) (data : Byte) :
    SameFrames mp ((memphyWrite mp addr data).getD mp) := by
  cases random : mp.rdmflg with
  | true =>
      rw [memphyWrite_random random]
      exact ⟨rfl, rfl, rfl, rfl⟩
  | false => simpa [memphyWrite_sequential random] using SameFrames.refl mp

theorem memphyWrite_outside (mp : Memphy) {addr other : Nat} (data : Byte) (outside : other ≠ addr) :
    ((memphyWrite mp addr data).getD mp).storage other = mp.storage other := by
  cases random : mp.rdmflg with
  | true =>
      rw [memphyWrite_random random]
      exact Function.update_of_ne outside _ _
  | false => rw [memphyWrite_sequential random, Option.getD_none]

/-! ## Copying a frame -/

section Copy

variable {src dst : Memphy} {srcfpn dstfpn : Nat} {data : Byte}

theorem swapCpCells_succ (n : Nat) :
    swapCpCells src srcfpn dst dstfpn data (n + 1) =
      swapCpCell srcfpn dstfpn data (swapCpCells src srcfpn dst dstfpn data n) n := by
  simp [swapCpCells, List.range_succ]

theorem swapCpCells_fst (n : Nat) : (swapCpCells src srcfpn dst dstfpn data n).1 = src := by
  induction n with
  | zero => rfl
  | succ n ih =>
      rw [swapCpCells_succ, swapCpCell]
      exact (memphyRead_eq _ _).trans ih

theorem swapCpCells_sameFrames (n : Nat) :
    SameFrames dst (swapCpCells src srcfpn dst dstfpn data n).2 := by
  induction n with
  | zero => exact SameFrames.refl dst
  | succ n ih =>
      rw [swapCpCells_succ, swapCpCell]
      exact ih.trans (memphyWrite_sameFrames _ _ _)

theorem swapCpCells_outside (n : Nat) {addr : Nat}
    (outside : addr < dstfpn * pagingPagesz ∨ dstfpn * pagingPagesz + n ≤ addr) :
    (swapCpCells src srcfpn dst dstfpn data n).2.storage addr = dst.storage addr := by
  induction n with
  | zero => rfl
  | succ n ih =>
      rw [swapCpCells_succ, swapCpCell, memphyWrite_outside _ _ (by omega)]
      exact ih (by omega)

theorem swapCpCells_storage (randomSrc : src.rdmflg = true) (randomDst : dst.rdmflg = true)
    (n addr : Nat) :
    (swapCpCells src srcfpn dst dstfpn data n).2.storage addr =
      if dstfpn * pagingPagesz ≤ addr ∧ addr < dstfpn * pagingPagesz + n then
        src.storage (srcfpn * pagingPagesz + (addr - dstfpn * pagingPagesz))
      else dst.storage addr := by
  induction n with
  | zero =>
      rw [if_neg (by omega)]
      rfl
  | succ n ih =>
      have random : (swapCpCells src srcfpn dst dstfpn data n).2.rdmflg = true :=
        (swapCpCells_sameFrames n).rdmflg.trans randomDst
      rw [swapCpCells_succ, swapCpCell, swapCpCells_fst, memphyRead_random randomSrc,
        Option.getD_some, memphyWrite_random random, Option.getD_some]
      dsimp only
      by_cases here : addr = dstfpn * pagingPagesz + n
      · subst here
        rw [Function.update_self, if_pos (by omega)]
        congr 1
        omega
      · simp only [Function.update_of_ne here, ih]
        by_cases copied : dstfpn * pagingPagesz ≤ addr ∧ addr < dstfpn * pagingPagesz + n
        · rw [if_pos copied, if_pos (by omega)]
        · rw [if_neg copied, if_neg (by omega)]

theorem swapCpPage_fst : (swapCpPage src srcfpn dst dstfpn data).1 = src :=
  swapCpCells_fst pagingPagesz

theorem swapCpPage_sameFrames : SameFrames dst (swapCpPage src srcfpn dst dstfpn data).2 :=
  swapCpCells_sameFrames pagingPagesz

theorem swapCpPage_outside (src : Memphy) (srcfpn : Nat) (dst : Memphy) {dstfpn : Nat} (data : Byte)
    {fpn off : Nat} (other : fpn ≠ dstfpn) (inside : off < pagingPagesz) :
    (swapCpPage src srcfpn dst dstfpn data).2.storage (fpn * pagingPagesz + off) =
      dst.storage (fpn * pagingPagesz + off) := by
  apply swapCpCells_outside
  simp only [pagingPagesz] at inside ⊢
  omega

theorem swapCpPage_storage (randomSrc : src.rdmflg = true) (srcfpn : Nat)
    (randomDst : dst.rdmflg = true) (dstfpn : Nat) (data : Byte) (fpn off : Nat) (inside : off < pagingPagesz) :
    (swapCpPage src srcfpn dst dstfpn data).2.storage (fpn * pagingPagesz + off) =
      if fpn = dstfpn then src.storage (srcfpn * pagingPagesz + off)
      else dst.storage (fpn * pagingPagesz + off) := by
  rw [swapCpPage, swapCpCells_storage randomSrc randomDst]
  have inFrame : (dstfpn * pagingPagesz ≤ fpn * pagingPagesz + off ∧
      fpn * pagingPagesz + off < dstfpn * pagingPagesz + pagingPagesz) ↔ fpn = dstfpn := by
    simp only [pagingPagesz] at inside ⊢
    omega
  by_cases same : fpn = dstfpn
  · subst same
    rw [if_pos rfl, if_pos (inFrame.mpr rfl), Nat.add_sub_cancel_left]
  · rw [if_neg same, if_neg (fun bounds => same (inFrame.mp bounds))]

end Copy

end OsSim.Paging
