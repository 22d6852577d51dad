import DocumentCode.Sfsd.Irp
import Mathlib.Algebra.Order.Group.Int

/-!
# The sizes of a file

`SFsdSetAllocationInformation` sets the allocation size of a file, and where that cuts
the file short it sets its other sizes too. It compares them the wrong way round for
that: they are set to the new allocation size where they are below it. What comes of it
over any number of requests is `DocumentCode.Sfsd.fileSize_setAllocations`.
-/

namespace DocumentCode

namespace Sfsd

/-- `SFsdSetAllocationInformation`: the status and the sizes it leaves. -/
def setAllocationInformation (s : Sizes) (allocationSize : ℤ) (canTruncate : Bool) :
    NTSTATUS × Sizes :=
  if s.allocationSize < allocationSize then
    (STATUS_SUCCESS, { s with allocationSize })
  else if s.allocationSize > allocationSize then
    if !canTruncate then
      (STATUS_USER_MAPPED_FILE, s)
    else
      (STATUS_SUCCESS,
        { allocationSize
          fileSize := if s.fileSize < allocationSize then allocationSize else s.fileSize
          validDataLength :=
            if s.validDataLength < allocationSize then allocationSize else s.validDataLength })
  else
    (STATUS_SUCCESS, s)

/-- Any number of requests to set the allocation size of a file, each with the answer of
`MmCanFileBeTruncated`. -/
def setAllocations (s : Sizes) (rs : List (ℤ × Bool)) : Sizes :=
  rs.foldl (fun s r => (setAllocationInformation s r.1 r.2).2) s

variable {s : Sizes} {rs : List (ℤ × Bool)} {r : ℤ × Bool} {allocationSize : ℤ} {canTruncate : Bool}

@[simp] theorem setAllocations_nil : setAllocations s [] = s := rfl

theorem setAllocations_concat : setAllocations s (rs ++ [r]) =
    (setAllocationInformation (setAllocations s rs) r.1 r.2).2 := by
  rw [setAllocations, List.foldl_append]
  rfl

/-- A request that cuts the allocation down. -/
theorem setAllocationInformation_truncate (h : allocationSize < s.allocationSize) :
    (setAllocationInformation s allocationSize true).2 =
      ⟨allocationSize, max s.fileSize allocationSize, max s.validDataLength allocationSize⟩ := by
  rw [setAllocationInformation, if_neg h.not_gt, if_pos h, if_neg (by decide)]
  simp only [max_def_lt]

/-- What one request does to the file size: nothing, or it lets the file grow to the size
to which its allocation is cut down. -/
theorem fileSize_setAllocationInformation (s : Sizes) (allocationSize : ℤ) (canTruncate : Bool) :
    (setAllocationInformation s allocationSize canTruncate).2.fileSize = s.fileSize ∨
      (setAllocationInformation s allocationSize canTruncate).2.fileSize = allocationSize ∧
        s.fileSize < allocationSize ∧ canTruncate = true ∧ allocationSize < s.allocationSize := by
  rcases lt_trichotomy s.allocationSize allocationSize with h | h | h
  · rw [setAllocationInformation, if_pos h]
    exact Or.inl rfl
  · rw [setAllocationInformation, if_neg h.not_lt, if_neg h.not_gt]
    exact Or.inl rfl
  cases canTruncate with
  | false =>
    rw [setAllocationInformation, if_neg h.not_gt, if_pos h]
    exact Or.inl rfl
  | true =>
    rw [setAllocationInformation_truncate h]
    rcases lt_or_ge s.fileSize allocationSize with hlt | hge
    · exact Or.inr ⟨max_eq_right hlt.le, hlt, rfl, h⟩
    · exact Or.inl (max_eq_left hge)

/-- **A file never gets shorter by having its allocation cut down, only longer**: over any
number of requests its size stays what it was, or becomes the size to which one of them cut
the allocation down, beyond the end of the file. To cut the allocation down below the file
size leaves the end of the file beyond it. -/
theorem fileSize_setAllocations (s : Sizes) (rs : List (ℤ × Bool)) :
    ((setAllocations s rs).fileSize = s.fileSize ∨
      ∃ before r after, rs = before ++ r :: after ∧ r.2 = true ∧
        r.1 < (setAllocations s before).allocationSize ∧ s.fileSize < r.1 ∧
        (setAllocations s rs).fileSize = r.1) ∧
    ∀ allocationSize, allocationSize < (setAllocations s rs).fileSize →
      allocationSize < (setAllocations s rs).allocationSize →
      (setAllocations s (rs ++ [(allocationSize, true)])).allocationSize <
        (setAllocations s (rs ++ [(allocationSize, true)])).fileSize := by
  refine ⟨?_, fun allocationSize hfile halloc => ?_⟩
  · induction rs using List.reverseRecOn with
    | nil => exact Or.inl rfl
    | append_singleton rs r ih =>
      rw [setAllocations_concat]
      obtain hsame | ⟨hgrow, hlt, hcan, htrunc⟩ :=
        fileSize_setAllocationInformation (setAllocations s rs) r.1 r.2
      · rw [hsame]
        refine ih.imp_right ?_
        rintro ⟨before, r', after, rfl, h⟩
        exact ⟨before, r', after ++ [r], by simp, h⟩
      · rw [hgrow]
        refine Or.inr ⟨rs, r, [], rfl, hcan, htrunc, ?_, rfl⟩
        obtain heq | ⟨before, r', after, -, -, -, hlt', heq⟩ := ih
        · exact heq ▸ hlt
        · exact hlt'.trans (heq ▸ hlt)
  · rw [setAllocations_concat, setAllocationInformation_truncate halloc]
    exact hfile.trans_le (le_max_left _ _)

end Sfsd

end DocumentCode
