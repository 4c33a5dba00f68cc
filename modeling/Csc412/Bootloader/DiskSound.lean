import Mathlib.Data.List.GetD
import Csc412.Bootloader.Disk
import Csc412.Lib.Fallible

/-!
# What is on the disk

However the calls of `write` are cut and interrupted, the output is the boot sector, the
kernel and zeros up to a whole number of sectors, and it comes to an end when enough of
the calls write something.
-/

namespace Csc412.Bootloader

open Lib

/-- The calls are short or interrupted, and at least `k` of them write something. -/
def Progress (results : List WriteResult) (k : Nat) : Prop :=
  (∀ r ∈ results, r = .interrupted ∨ ∃ n, 0 < n ∧ r = .wrote n) ∧
    k ≤ results.countP (· ≠ .interrupted)

section
variable {results : List WriteResult} {data disk image : Bytes} {out out' : Output} {k : Nat}

theorem Progress.mono {m : Nat} (hp : Progress results m) (hk : k ≤ m) : Progress results k :=
  ⟨hp.1, Nat.le_trans hk hp.2⟩

/-! ## One piece of data -/

theorem diskwrite_empty (hdata : data = []) :
    diskwrite data results disk = .ok ⟨results, disk⟩ := by
  rw [diskwrite.eq_def]
  exact if_pos hdata

theorem diskwrite_interrupted (hdata : data ≠ []) :
    diskwrite data (.interrupted :: results) disk = diskwrite data results disk := by
  rw [diskwrite.eq_def]
  exact if_neg hdata

theorem diskwrite_wrote (hdata : data ≠ []) {n : Nat} (hn : min n data.length ≠ 0) :
    diskwrite data (.wrote n :: results) disk =
      diskwrite (data.drop (min n data.length)) results
          (disk ++ data.take (min n data.length)) := by
  rw [diskwrite.eq_def]
  exact (if_neg hdata).trans (if_neg hn)

theorem diskwrite_disk (h : diskwrite data results disk = .ok out) : out.disk = disk ++ data := by
  induction results generalizing data disk with
  | nil =>
    by_cases hdata : data = []
    · rw [diskwrite_empty hdata] at h
      obtain rfl := Except.ok.inj h
      rw [hdata, List.append_nil]
    · rw [diskwrite.eq_def] at h
      cases (if_neg hdata).symm.trans h
  | cons r results ih =>
    by_cases hdata : data = []
    · rw [diskwrite_empty hdata] at h
      obtain rfl := Except.ok.inj h
      rw [hdata, List.append_nil]
    · cases r with
      | interrupted =>
        rw [diskwrite_interrupted hdata] at h
        exact ih h
      | failed =>
        rw [diskwrite.eq_def] at h
        cases (if_neg hdata).symm.trans h
      | wrote n =>
        by_cases hn : min n data.length = 0
        · rw [diskwrite.eq_def] at h
          cases ((if_neg hdata).trans (if_pos hn)).symm.trans h
        · rw [diskwrite_wrote hdata hn] at h
          rw [ih h, List.append_assoc, List.take_append_drop]

theorem diskwrite_done (hp : Progress results (data.length + k)) (disk : Bytes) :
    ∃ out, diskwrite data results disk = .ok out ∧ Progress out.results k := by
  induction results generalizing data disk with
  | nil =>
    obtain ⟨hgood, hcount⟩ := hp
    rw [List.countP_nil] at hcount
    have hdata : data = [] := List.length_eq_zero_iff.mp (by omega)
    exact ⟨_, diskwrite_empty hdata, hgood, by omega⟩
  | cons r results ih =>
    obtain ⟨hgood, hcount⟩ := hp
    have hrest : ∀ r ∈ results, r = .interrupted ∨ ∃ n, 0 < n ∧ r = .wrote n :=
      fun r hr => hgood r (List.mem_cons_of_mem _ hr)
    by_cases hdata : data = []
    · exact ⟨_, diskwrite_empty hdata, hgood, Nat.le_trans (Nat.le_add_left _ _) hcount⟩
    · obtain rfl | ⟨n, hn, rfl⟩ := hgood r List.mem_cons_self
      · rw [List.countP_cons_of_neg (by simp)] at hcount
        rw [diskwrite_interrupted hdata]
        exact ih ⟨hrest, hcount⟩ disk
      · rw [List.countP_cons_of_pos (by simp)] at hcount
        have hlen := List.length_pos_iff.mpr hdata
        have hw : min n data.length ≠ 0 := by omega
        rw [diskwrite_wrote hdata hw]
        apply ih ⟨hrest, ?_⟩
        rw [List.length_drop]
        omega

/-! ## Files and zeros -/

theorem zerobuf_length : zerobuf.length = 512 := List.length_replicate

theorem writeZeros_disk {n : Nat} (h : writeZeros n out = .ok out') :
    out'.disk = out.disk ++ List.replicate (512 * n) 0 := by
  induction n generalizing out with
  | zero =>
    cases h
    exact (List.append_nil _).symm
  | succ n ih =>
    obtain ⟨out₁, hwrite, hrest⟩ := bind_eq_ok h
    rw [ih hrest, diskwrite_disk hwrite, List.append_assoc, zerobuf, ← List.replicate_add,
      Nat.mul_succ, Nat.add_comm]

theorem writeZeros_done {n : Nat} (hp : Progress out.results (512 * n + k)) :
    ∃ out', writeZeros n out = .ok out' ∧ Progress out'.results k := by
  induction n generalizing out with
  | zero => exact ⟨out, rfl, by simpa using hp⟩
  | succ n ih =>
    have hneed : zerobuf.length + (512 * n + k) = 512 * (n + 1) + k := by
      rw [zerobuf_length]
      omega
    rw [← hneed] at hp
    obtain ⟨out₁, hwrite, hp₁⟩ := diskwrite_done hp out.disk
    rw [writeZeros, hwrite]
    exact ih hp₁

theorem writeFile_disk {contents : Bytes} (h : writeFile contents out = .ok out') :
    out'.disk = out.disk ++ contents := by
  induction contents, out using writeFile.induct with
  | case1 out =>
    rw [writeFile, dif_pos rfl] at h
    cases h
    rw [List.append_nil]
  | case2 contents out hne ih =>
    rw [writeFile, dif_neg hne] at h
    obtain ⟨out₁, hwrite, hrest⟩ := bind_eq_ok h
    rw [ih out₁ hrest, diskwrite_disk hwrite, List.append_assoc, List.take_append_drop]

theorem writeFile_done {contents : Bytes} (hp : Progress out.results (contents.length + k)) :
    ∃ out', writeFile contents out = .ok out' ∧ Progress out'.results k := by
  induction contents, out using writeFile.induct with
  | case1 out =>
    refine ⟨out, ?_, by simpa using hp⟩
    rw [writeFile, dif_pos rfl]
  | case2 contents out hne ih =>
    have hneed : (contents.take 4096).length + ((contents.drop 4096).length + k) =
        contents.length + k := by
      rw [List.length_take, List.length_drop]
      omega
    rw [← hneed] at hp
    obtain ⟨out₁, hwrite, hp₁⟩ := diskwrite_done hp out.disk
    rw [writeFile, dif_neg hne, hwrite]
    exact ih out₁ hp₁

/-! ## The image of a kernel -/

/-- A whole number of sectors, at least 1024, with the kernel after the boot sector and
zeros after the kernel. -/
structure HoldsKernel (image kernel : Bytes) : Prop where
  size : image.length % 512 = 0
  least : 512 * 1024 ≤ image.length
  long : 512 + kernel.length ≤ image.length
  bytes : ∀ i, image.getD (512 + i) 0 = kernel.getD i 0

theorem bootBlock_length {bootsector : Bytes} (hb : bootsector.length ≤ 510) :
    (bootBlock bootsector).length = 512 := by
  rw [bootBlock, List.length_append, List.length_append, List.length_replicate, List.length_cons,
    List.length_singleton]
  omega

theorem holdsKernel_append {block kernel : Bytes} (hblock : block.length = 512) {n : Nat}
    (hsize : (kernel.length + n) % 512 = 0) (hleast : 512 * 1023 ≤ kernel.length + n) :
    HoldsKernel (block ++ kernel ++ List.replicate n 0) kernel := by
  have hlen : (block ++ kernel ++ List.replicate n 0).length = 512 + kernel.length + n := by
    rw [List.length_append, List.length_append, List.length_replicate, hblock]
  refine ⟨by omega, by omega, by omega, ?_⟩
  intro i
  rw [List.append_assoc, List.getD_append_right _ _ _ _ (by omega), hblock, Nat.add_sub_cancel_left]
  by_cases hi : i < kernel.length
  · rw [List.getD_append _ _ _ _ hi]
  · rw [List.getD_append_right _ _ _ _ (Nat.le_of_not_lt hi),
      List.getD_eq_default kernel _ (Nat.le_of_not_lt hi)]
    rw [List.getD_eq_getElem?_getD, List.getElem?_replicate]
    split <;> rfl

theorem zerobuf_take (n : Nat) : zerobuf.take (512 - n) = List.replicate (512 - n) 0 := by
  rw [zerobuf, List.take_replicate, Nat.min_eq_left (Nat.sub_le _ _)]

theorem mkbootdisk_image {bootsector kernel : Bytes} (hb : bootsector.length ≤ 510)
    (h : mkbootdisk results bootsector [.file kernel] = .ok image) : HoldsKernel image kernel := by
  rw [mkbootdisk, if_neg (by omega)] at h
  obtain ⟨out₁, hblock, h⟩ := bind_eq_ok h
  obtain ⟨⟨nsectors, out₂⟩, hargs, h⟩ := bind_eq_ok h
  obtain ⟨out₃, hzeros, h⟩ := bind_eq_ok h
  obtain rfl := Except.ok.inj h
  obtain ⟨out₄, hfile, hargs⟩ := bind_eq_ok hargs
  have hdisk₄ : out₄.disk = bootBlock bootsector ++ kernel := by
    rw [writeFile_disk hfile, diskwrite_disk hblock, List.nil_append]
  rw [writeZeros_disk hzeros]
  by_cases hpos : kernel.length % 512 = 0
  · have hlast := (if_neg (not_not.mpr hpos)).symm.trans hargs
    obtain ⟨rfl, rfl⟩ := Prod.mk.inj (Except.ok.inj hlast)
    rw [hdisk₄]
    exact holdsKernel_append (bootBlock_length hb) (by omega) (by omega)
  · obtain ⟨out₅, hpad, hlast⟩ := bind_eq_ok ((if_pos hpos).symm.trans hargs)
    obtain ⟨rfl, rfl⟩ := Prod.mk.inj (Except.ok.inj hlast)
    rw [diskwrite_disk hpad, hdisk₄, zerobuf_take,
      List.append_assoc _ _ (List.replicate (512 * _) 0), ← List.replicate_add]
    exact holdsKernel_append (bootBlock_length hb) (by omega) (by omega)

theorem writeArgs_done {kernel : Bytes} (hp : Progress out.results (kernel.length + (512 + k))) :
    ∃ nsectors out', writeArgs [.file kernel] 1 out = .ok (nsectors, out') ∧ 1 ≤ nsectors ∧
    Progress out'.results k := by
  obtain ⟨out₁, hfile, hp₁⟩ := writeFile_done hp
  rw [writeArgs, hfile]
  by_cases hpos : kernel.length % 512 = 0
  · exact ⟨_, out₁, if_neg (not_not.mpr hpos), Nat.le_add_right _ _, hp₁.mono (Nat.le_add_left _ _)⟩
  · have hpad : (zerobuf.take (512 - kernel.length % 512)).length ≤ 512 := by
      rw [List.length_take]
      exact Nat.le_trans (Nat.min_le_left _ _) (Nat.sub_le _ _)
    obtain ⟨out₂, hout₂, hp₂⟩ := diskwrite_done (hp₁.mono (Nat.add_le_add_right hpad k)) out₁.disk
    refine ⟨1 + (kernel.length + (512 - kernel.length % 512)) / 512, out₂, ?_,
      Nat.le_add_right _ _, hp₂⟩
    refine Eq.trans (if_pos hpos) ?_
    rw [hout₂]
    rfl

theorem mkbootdisk_done {bootsector kernel : Bytes} (hb : bootsector.length ≤ 510)
    (hp : Progress results (512 * 1025 + kernel.length)) :
    ∃ image, mkbootdisk results bootsector [.file kernel] = .ok image := by
  have hneed : (bootBlock bootsector).length + (kernel.length + (512 + 512 * 1023)) =
      512 * 1025 + kernel.length := by
    rw [bootBlock_length hb]
    omega
  rw [← hneed] at hp
  obtain ⟨out₁, hblock, hp₁⟩ := diskwrite_done hp []
  obtain ⟨nsectors, out₂, hargs, hn, hp₂⟩ := writeArgs_done hp₁
  obtain ⟨out₃, hzeros, -⟩ := @writeZeros_done out₂ 0 (1024 - nsectors) (hp₂.mono (by omega))
  refine ⟨out₃.disk, ?_⟩
  rw [mkbootdisk, if_neg (by omega), hblock, ok_bind, hargs, ok_bind]
  dsimp only
  rw [hzeros, ok_bind]

end

end Csc412.Bootloader
