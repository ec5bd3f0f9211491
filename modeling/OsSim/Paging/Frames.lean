import OsSim.Lib.Custody
import OsSim.Paging.System

namespace OsSim.Paging
open Custody

/-! ## Frames held by page table entries -/

def ramHolds (pte : BitVec 32) : Option Nat :=
  if pagingPagePresent pte then some (pagingFpn pte) else none

def swapHolds (pte : BitVec 32) : Option Nat :=
  if pagingPageSwapped pte then some (pagingSwp pte) else none

@[simp] theorem ramHolds_pteSetSwap (pte : BitVec 32) (swptyp swpoff : Nat) :
    ramHolds (pteSetSwap pte swptyp swpoff) = none := by
  simp [ramHolds]

@[simp] theorem swapHolds_pteSetFpn (pte : BitVec 32) (fpn : Nat) :
    swapHolds (pteSetFpn pte fpn) = none := by
  simp [swapHolds]

theorem ramHolds_eq_some {pte : BitVec 32} {fpn : Nat} :
    ramHolds pte = some fpn ↔ pagingPagePresent pte = true ∧ pagingFpn pte = fpn := by
  simp [ramHolds]

theorem swapHolds_eq_some {pte : BitVec 32} {fpn : Nat} :
    swapHolds pte = some fpn ↔ pagingPageSwapped pte = true ∧ pagingSwp pte = fpn := by
  simp [swapHolds]

theorem ramHolds_pteSetFpn (pte : BitVec 32) {fpn : Nat} (fits : fpn < 2 ^ 13) :
    ramHolds (pteSetFpn pte fpn) = some fpn := by
  rw [ramHolds_eq_some, pagingFpn_pteSetFpn, Nat.mod_eq_of_lt fits]
  exact ⟨pagingPagePresent_pteSetFpn pte fpn, rfl⟩

theorem swapHolds_pteSetSwap (pte : BitVec 32) (swptyp : Nat) {swpoff : Nat}
    (fits : swpoff < 2 ^ 21) : swapHolds (pteSetSwap pte swptyp swpoff) = some swpoff := by
  rw [swapHolds_eq_some, pagingSwp_pteSetSwap, Nat.mod_eq_of_lt fits]
  exact ⟨pagingPageSwapped_pteSetSwap pte swptyp swpoff, rfl⟩

theorem swapHolds_taken {frames : List Nat} (fits : ∀ fpn ∈ frames, fpn < 2 ^ 21) (n : Nat) :
    ∀ fpn ∈ (frames.take n).reverse, ∀ pte, swapHolds (pteSetSwap pte 0 fpn) = some fpn :=
  fun fpn member pte => swapHolds_pteSetSwap pte 0 (fits fpn (List.mem_of_mem_take (List.mem_reverse.mp member)))

theorem pagingFpn_lt (pte : BitVec 32) : pagingFpn pte < 2 ^ 13 := by
  have field : pagingFpn pte = pte.toNat / 2 ^ 0 % 2 ^ 13 :=
    BitField.toNat_getval (by decide) (by decide) pte
  omega

def System.tables (s : System) (p : Nat) : Nat → BitVec 32 := (s.procs p).pgd

@[simp] theorem System.tables_put (s : System) (p : Nat) (caller : Caller) :
    (s.put p caller).tables = Function.update s.tables p caller.mm.pgd := by
  funext q
  by_cases same : q = p
  · subst same
    simp [System.tables]
  · simp [System.tables, System.procs_put_of_ne s caller same, same]

/-- What the pages of all processes hold of the frames that `h` reads from an entry. A page is a process
and a page number. -/
def held (h : BitVec 32 → Option Nat) (tables : Nat → Nat → BitVec 32) (page : Nat × Nat) :
    Option Nat :=
  h (tables page.1 page.2)

theorem held_update (h : BitVec 32 → Option Nat) (tables : Nat → Nat → BitVec 32) (p pgn : Nat)
    (pte : BitVec 32) :
    held h (Function.update tables p (Function.update (tables p) pgn pte)) =
      Function.update (held h tables) (p, pgn) (h pte) := by
  funext ⟨q, i⟩
  by_cases process : q = p
  · subst process
    by_cases page : i = pgn
    · subst page
      simp [held]
    · simp [held, page]
  · simp [held, process]

/-! ## Taking frames -/

def takeFrames (mp : Memphy) (n : Nat) : Memphy :=
  { mp with
    freeFpList := mp.freeFpList.drop n
    usedFpList := (mp.freeFpList.take n).reverse ++ mp.usedFpList }

theorem takeFrames_of_empty {mp : Memphy} (empty : mp.freeFpList = []) (n : Nat) :
    takeFrames mp n = mp := by
  cases mp
  simp_all [takeFrames]

theorem allocPagesRange_eq (reqPgnum : Nat) (caller : Caller) (frmLst frmLstSwap : List Nat) :
    allocPagesRange reqPgnum caller frmLst frmLstSwap =
      let rest := reqPgnum - caller.mram.freeFpList.length
      (if rest ≤ caller.activeMswp.freeFpList.length then 0 else -3000,
        { caller with
          mram := takeFrames caller.mram reqPgnum
          activeMswp := takeFrames caller.activeMswp rest },
        (caller.mram.freeFpList.take reqPgnum).reverse ++ frmLst,
        (caller.activeMswp.freeFpList.take rest).reverse ++ frmLstSwap) := by
  induction reqPgnum generalizing caller frmLst frmLstSwap with
  | zero => simp [allocPagesRange, takeFrames]
  | succ n ih =>
      obtain ⟨mm, mram, activeMswp⟩ := caller
      cases ram : mram.freeFpList with
      | cons fpn rest =>
          simp [allocPagesRange, memphyGetFreefp, ram, ih, takeFrames, memphyPutUsedfp]
      | nil =>
          cases swap : activeMswp.freeFpList with
          | cons fpn rest =>
              simp [allocPagesRange, memphyGetFreefp, ram, swap, ih, takeFrames, memphyPutUsedfp]
          | nil =>
              simp [allocPagesRange, memphyGetFreefp, ram, swap, takeFrames_of_empty]

def enoughFrames (caller : Caller) (incpgnum : Int) : Prop :=
  incpgnum.toNat - caller.mram.freeFpList.length ≤ caller.activeMswp.freeFpList.length

instance (caller : Caller) (incpgnum : Int) : Decidable (enoughFrames caller incpgnum) :=
  inferInstanceAs (Decidable (_ ≤ _))

def takeBoth (caller : Caller) (incpgnum : Int) : Caller :=
  { caller with
    mram := takeFrames caller.mram incpgnum.toNat
    activeMswp :=
      takeFrames caller.activeMswp (incpgnum.toNat - caller.mram.freeFpList.length) }

theorem vmMapRam_eq (caller : Caller) (mapstart incpgnum : Int) :
    vmMapRam caller mapstart incpgnum =
      if enoughFrames caller incpgnum then
        (0, vmapPageRange (takeBoth caller incpgnum) mapstart
          (caller.mram.freeFpList.take incpgnum.toNat).reverse
          (caller.activeMswp.freeFpList.take
            (incpgnum.toNat - caller.mram.freeFpList.length)).reverse)
      else (-1, takeBoth caller incpgnum) := by
  rw [vmMapRam, allocPagesRange_eq]
  by_cases enough : enoughFrames caller incpgnum
  · have enough' := enough
    rw [enoughFrames] at enough'
    simp [enough, enough', takeBoth]
  · have enough' := enough
    rw [enoughFrames] at enough'
    simp [enough, enough', takeBoth]

@[simp] theorem vmMapRam_mram (caller : Caller) (mapstart incpgnum : Int) :
    (vmMapRam caller mapstart incpgnum).2.mram = takeFrames caller.mram incpgnum.toNat := by
  rw [vmMapRam_eq]
  split <;> rfl

@[simp] theorem vmMapRam_activeMswp (caller : Caller) (mapstart incpgnum : Int) :
    (vmMapRam caller mapstart incpgnum).2.activeMswp =
      takeFrames caller.activeMswp (incpgnum.toNat - caller.mram.freeFpList.length) := by
  rw [vmMapRam_eq]
  split <;> rfl

/-! ## Mapping frames -/

section Mapping

variable {pteSet : BitVec 32 → Nat → BitVec 32} {h : BitVec 32 → Option Nat}
variable {tables : Nat → Nat → BitVec 32} {p : Nat} {mm : MmStruct} {pending pool : List Nat}
variable {univ : Nat → Prop}

theorem vmapFrames_fst (pgn : Nat) (frames : List Nat) (pgit : Nat) (mm : MmStruct) :
    (vmapFrames pteSet pgn frames pgit mm).1 = pgit + frames.length := by
  induction frames generalizing pgit mm with
  | nil => rfl
  | cons fpn rest ih =>
      rw [vmapFrames, ih, List.length_cons]
      omega

theorem vmapFrames_outside (pgn : Nat) (frames : List Nat) (pgit : Nat) (mm : MmStruct) {i : Nat}
    (outside : i < pgn + pgit ∨ pgn + pgit + frames.length ≤ i) :
    (vmapFrames pteSet pgn frames pgit mm).2.pgd i = mm.pgd i := by
  induction frames generalizing pgit mm with
  | nil => rfl
  | cons fpn rest ih =>
      rw [List.length_cons] at outside
      rw [vmapFrames, ih _ _ (by omega)]
      exact Function.update_of_ne (by omega) _ _

/-- What mapping one frame keeps, the whole loop keeps. -/
theorem held_vmapFrames {motive : Nat → List Nat → (Nat × Nat → Option Nat) → Prop} (mm : MmStruct) (pgn : Nat)
    {frames : List Nat} (pgit : Nat) (table : tables p = mm.pgd)
    (maps : ∀ fpn ∈ frames, ∀ rest i own pte, motive i (fpn :: rest) own →
      motive (i + 1) rest (Function.update own (p, i) (h (pteSet pte fpn))))
    (start : motive (pgn + pgit) frames (held h tables)) :
    motive (pgn + pgit + frames.length) []
      (held h (Function.update tables p (vmapFrames pteSet pgn frames pgit mm).2.pgd)) := by
  induction frames generalizing tables pgit mm with
  | nil =>
      rw [vmapFrames, ← table, Function.update_eq_self]
      exact start
  | cons fpn rest ih =>
      have mapped := maps fpn (by simp) rest _ _ (tables p (pgn + pgit)) start
      rw [← held_update] at mapped
      have looped := ih (vmapFrames pteSet pgn [fpn] pgit mm).2 (pgit + 1) (by simp [table, vmapFrames])
        (fun f member => maps f (by simp [member])) mapped
      rw [Function.update_idem] at looped
      rw [List.length_cons, Nat.add_comm rest.length, ← Nat.add_assoc]
      exact looped

theorem exclusive_vmapFrames (mm : MmStruct) (pgn : Nat) {frames : List Nat} (pgit : Nat)
    (table : tables p = mm.pgd) (assigns : ∀ fpn ∈ frames, ∀ pte, h (pteSet pte fpn) = some fpn)
    (own : Exclusive (held h tables) (frames ++ pending) pool) :
    Exclusive (held h (Function.update tables p (vmapFrames pteSet pgn frames pgit mm).2.pgd))
      pending pool := by
  refine held_vmapFrames (motive := fun _ rest own => Exclusive own (rest ++ pending) pool) mm pgn pgit table ?_ own
  intro fpn member rest i pages pte own
  rw [assigns fpn member]
  exact own.assign (p, i)

theorem exclusive_vmapFrames_none (mm : MmStruct) (pgn : Nat) (frames : List Nat) (pgit : Nat)
    (table : tables p = mm.pgd) (drops : ∀ fpn pte, h (pteSet pte fpn) = none)
    (own : Exclusive (held h tables) pending pool) :
    Exclusive (held h (Function.update tables p (vmapFrames pteSet pgn frames pgit mm).2.pgd))
      pending pool := by
  refine held_vmapFrames (motive := fun _ _ own => Exclusive own pending pool) mm pgn pgit table ?_ own
  intro fpn _ rest i pages pte own
  rw [drops]
  exact own.drop (p, i)

theorem idle_update {own : Nat × Nat → Option Nat} {i : Nat} (idle : ∀ j, i ≤ j → own (p, j) = none)
    (fpn : Option Nat) : ∀ j, i + 1 ≤ j → Function.update own (p, i) fpn (p, j) = none := by
  intro j above
  rw [Function.update_of_ne (by simp; omega)]
  exact idle j (Nat.le_of_succ_le above)

theorem complete_vmapFrames (mm : MmStruct) (pgn : Nat) {frames : List Nat} (pgit : Nat)
    (table : tables p = mm.pgd) (assigns : ∀ fpn ∈ frames, ∀ pte, h (pteSet pte fpn) = some fpn)
    (idle : ∀ i, pgn + pgit ≤ i → held h tables (p, i) = none)
    (all : Complete univ (held h tables) (frames ++ pending) pool) :
    Complete univ (held h (Function.update tables p (vmapFrames pteSet pgn frames pgit mm).2.pgd))
      pending pool := by
  refine (held_vmapFrames (motive := fun i rest own =>
    (∀ j, i ≤ j → own (p, j) = none) ∧ Complete univ own (rest ++ pending) pool) mm pgn pgit table ?_ ⟨idle, all⟩).2
  rintro fpn member rest i pages pte ⟨idle, all⟩
  refine ⟨idle_update idle _, ?_⟩
  rw [assigns fpn member]
  exact all.assign (idle i (Nat.le_refl i))

theorem complete_vmapFrames_none (mm : MmStruct) (pgn : Nat) (frames : List Nat) (pgit : Nat)
    (table : tables p = mm.pgd) (drops : ∀ fpn pte, h (pteSet pte fpn) = none)
    (idle : ∀ i, pgn + pgit ≤ i → held h tables (p, i) = none)
    (all : Complete univ (held h tables) pending pool) :
    Complete univ (held h (Function.update tables p (vmapFrames pteSet pgn frames pgit mm).2.pgd))
      pending pool := by
  refine (held_vmapFrames (motive := fun i _ own =>
    (∀ j, i ≤ j → own (p, j) = none) ∧ Complete univ own pending pool) mm pgn pgit table ?_ ⟨idle, all⟩).2
  rintro fpn _ rest i pages pte ⟨idle, all⟩
  refine ⟨idle_update idle _, ?_⟩
  rw [drops]
  exact all.drop (idle i (Nat.le_refl i))

end Mapping

/-- `vmapPageRange` maps the RAM frames and after them the swap frames. -/
theorem vmapPageRange_mm (caller : Caller) (addr : Int) (frames frmLstSwap : List Nat) :
    (vmapPageRange caller addr frames frmLstSwap).mm =
      (vmapFrames (fun pte swpoff => pteSetSwap pte 0 swpoff) (pagingPgn (BitVec.ofInt 32 addr))
        frmLstSwap frames.length
        (vmapFrames pteSetFpn (pagingPgn (BitVec.ofInt 32 addr)) frames 0 caller.mm).2).2 := by
  simp [vmapPageRange, vmapFrames_fst]

theorem vmMapRam_outside (caller : Caller) (mapstart incpgnum : Int) {i : Nat}
    (outside : i < pagingPgn (BitVec.ofInt 32 mapstart) ∨
      pagingPgn (BitVec.ofInt 32 mapstart) + incpgnum.toNat ≤ i) :
    (vmMapRam caller mapstart incpgnum).2.mm.pgd i = caller.mm.pgd i := by
  rw [vmMapRam_eq]
  split
  · rw [vmapPageRange_mm, vmapFrames_outside, vmapFrames_outside]
    · rfl
    · simp only [List.length_reverse, List.length_take]
      omega
    · simp only [List.length_reverse, List.length_take]
      omega
  · rfl

end OsSim.Paging
