import OsSim.Paging.Pte

namespace OsSim.Paging

/-! ## Sequences of writes to one entry -/

inductive PteWrite
  | setFpn (fpn : Nat)
  | setSwap (swptyp swpoff : Nat)
deriving DecidableEq

def PteWrite.Fits : PteWrite → Prop
  | .setFpn fpn => fpn < 2 ^ 13
  | .setSwap swptyp swpoff => swptyp < 2 ^ 5 ∧ swpoff < 2 ^ 21

instance (write : PteWrite) : Decidable write.Fits :=
  match write with
  | .setFpn _ => inferInstanceAs (Decidable (_ < _))
  | .setSwap _ _ => inferInstanceAs (Decidable (_ ∧ _))

def writePte (pte : BitVec 32) : PteWrite → BitVec 32
  | .setFpn fpn => pteSetFpn pte fpn
  | .setSwap swptyp swpoff => pteSetSwap pte swptyp swpoff

def writePtes (pte : BitVec 32) (writes : List PteWrite) : BitVec 32 := writes.foldl writePte pte

/-- The entry says what the call stored. -/
def PteWrite.ReadFrom (pte : BitVec 32) : PteWrite → Prop
  | .setFpn fpn => pagingPagePresent pte = true ∧ pagingPageSwapped pte = false ∧ pagingFpn pte = fpn
  | .setSwap _ swpoff => pagingPageSwapped pte = true ∧ pagingPagePresent pte = false ∧ pagingSwp pte = swpoff

/-- The bits that no call changes. The dirty bit is the bit 28 and the reserve bit the bit 29. -/
def SameFlags (pte pte' : BitVec 32) : Prop := ∀ i, 26 ≤ i → i ≤ 29 → pte'.getLsbD i = pte.getLsbD i

theorem readFrom_writePte (pte : BitVec 32) {write : PteWrite} (fits : write.Fits) :
    write.ReadFrom (writePte pte write) := by
  cases write with
  | setFpn fpn =>
      refine ⟨pagingPagePresent_pteSetFpn pte fpn, pagingPageSwapped_pteSetFpn pte fpn, ?_⟩
      exact (pagingFpn_pteSetFpn pte fpn).trans (Nat.mod_eq_of_lt fits)
  | setSwap swptyp swpoff =>
      refine ⟨pagingPageSwapped_pteSetSwap pte swptyp swpoff, pagingPagePresent_pteSetSwap pte swptyp swpoff, ?_⟩
      exact (pagingSwp_pteSetSwap pte swptyp swpoff).trans (Nat.mod_eq_of_lt fits.2)

theorem sameFlags_writePte (pte : BitVec 32) (write : PteWrite) : SameFlags pte (writePte pte write) := by
  intro i low high
  cases write with
  | setFpn fpn =>
      rw [writePte, getLsbD_pteSetFpn, if_neg (by omega), if_neg (by omega), if_neg (by omega)]
  | setSwap swptyp swpoff =>
      rw [writePte, getLsbD_pteSetSwap, if_neg (by omega), if_neg (by omega), if_neg (by omega), if_neg (by omega)]

/-- The values need not fit for this. -/
theorem sameFlags_writePtes (pte : BitVec 32) (writes : List PteWrite) : SameFlags pte (writePtes pte writes) := by
  induction writes generalizing pte with
  | nil => exact fun _ _ _ => rfl
  | cons write writes ih =>
      intro i low high
      have first := sameFlags_writePte pte write i low high
      have later := ih (writePte pte write) i low high
      exact later.trans first

theorem writePtes_concat (pte : BitVec 32) (before : List PteWrite) (last : PteWrite) :
    writePtes pte (before ++ [last]) = writePte (writePtes pte before) last := by
  rw [writePtes, List.foldl_append, List.foldl_cons, List.foldl_nil, writePtes]

theorem readFrom_writePtes (pte : BitVec 32) {writes : List PteWrite} (fit : ∀ write ∈ writes, write.Fits)
    {before later : List PteWrite} {last : PteWrite} (called : writes = before ++ last :: later) :
    last.ReadFrom (writePtes pte (before ++ [last])) ∧ SameFlags pte (writePtes pte (before ++ [last])) := by
  have fits : last.Fits := by
    apply fit
    rw [called]
    exact List.mem_append_right before List.mem_cons_self
  refine ⟨?_, sameFlags_writePtes pte _⟩
  rw [writePtes_concat]
  exact readFrom_writePte _ fits

theorem readFrom_frameAfterSwap :
    (PteWrite.setFpn 5).ReadFrom (writePtes 0xFFFFFFFF ([.setFpn 8191, .setSwap 31 2097151] ++ [.setFpn 5])) ∧
      SameFlags 0xFFFFFFFF (writePtes 0xFFFFFFFF ([.setFpn 8191, .setSwap 31 2097151] ++ [.setFpn 5])) :=
  @readFrom_writePtes 0xFFFFFFFF [.setFpn 8191, .setSwap 31 2097151, .setFpn 5, .setSwap 0 7] (by decide)
    [.setFpn 8191, .setSwap 31 2097151] [.setSwap 0 7] (.setFpn 5) rfl

end OsSim.Paging
