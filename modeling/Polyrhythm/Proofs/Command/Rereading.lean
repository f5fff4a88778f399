import Polyrhythm.Command.Folder

/-!
# Reading what was written

A file that was written to a path is read back from that path (`Folder.read_write`): writing makes
no folder disappear on the way to it. Whatever is wrong with a path is a fault that is reported to
the user (`Folder.isReported_read`, `Folder.isReported_write`).
-/

namespace Polyrhythm.Folder

variable {folder folder' : Folder} {here place : Place} {names : List String} {path : String}
  {content : Bytes} {fault : Fault}

/-! ## Paths after writing -/

/-- What is a folder is one after a file was put somewhere. -/
theorem isFolder_put (h : folder.isFolder here = true) (place : Place) (content : Bytes) :
    (folder.put place content).isFolder here = true := by
  rw [isFolder, Bool.or_eq_true] at h ⊢
  refine h.imp_right fun hfiles => ?_
  rw [List.any_eq_true] at hfiles ⊢
  obtain ⟨file, hfile, hinside⟩ := hfiles
  by_cases hplace : file.1 = place
  · exact ⟨(place, content), List.mem_cons_self, hplace ▸ hinside⟩
  · refine ⟨file, List.mem_cons_of_mem _ (List.mem_filter.2 ⟨hfile, ?_⟩), hinside⟩
    simpa using hplace

/-- A path that leads to a place in an existing folder leads there after a file was put
somewhere. -/
theorem follow_put (h : folder.follow here names = .place place false) (other : Place)
    (content : Bytes) : (folder.put other content).follow here names = .place place false := by
  fun_induction follow folder here names with
  | case2 here rest ih | case3 here rest ih | case4 here rest ih => exact ih h
  | case6 here name rest hempty hdot hup next hlength hlast =>
    rw [follow.eq_5 _ _ _ _ hempty hdot hup, if_neg hlength, if_pos hlast]
    exact h
  | case7 here name rest hempty hdot hup next hlength hlast hfolder ih =>
    rw [follow.eq_5 _ _ _ _ hempty hdot hup, if_neg hlength, if_neg hlast,
      if_pos (isFolder_put hfolder other content)]
    exact ih h
  | case8 => cases (Target.place.inj h).2
  | case1 | case5 | case9 | case10 => cases h

theorem target_put (h : folder.target path = .place place false) (other : Place)
    (content : Bytes) : (folder.put other content).target path = .place place false := by
  rw [target] at h ⊢
  split at h
  · cases h
  · next hlength =>
    rw [if_neg hlength]
    split at h
    · cases h
    · exact follow_put h other content
    · exact follow_put h other content

/-- A file that was just put somewhere makes no folder of its own place. -/
theorem isFolder_put_same (h : folder.isFolder place = false) (content : Bytes) :
    (folder.put place content).isFolder place = false := by
  obtain ⟨hup, hfiles⟩ := Bool.or_eq_false_iff.1 h
  refine Bool.or_eq_false_iff.2 ⟨hup, ?_⟩
  rw [List.any_eq_false] at hfiles ⊢
  intro file hfile
  rcases List.mem_cons.1 hfile with rfl | hfile
  · simp
  · exact hfiles file (List.mem_filter.1 hfile).1

/-- Writing to a path puts a file at a place that the path stands for. -/
theorem exists_of_write (h : folder.write path content = .ok folder') :
    ∃ place, isInvalid path = false ∧ folder.target path = .place place false ∧
      folder.isFolder place = false ∧ folder' = folder.put place content := by
  rw [write] at h
  split at h
  · cases h
  · next hvalid =>
    split at h
    · cases h
    · cases h
    · cases h
    · next place mustBeFolder htarget =>
      split at h
      · cases h
      · next hplace =>
        obtain ⟨hfolder, rfl⟩ := Bool.or_eq_false_iff.1 (Bool.eq_false_iff.2 hplace)
        cases h
        exact ⟨place, Bool.eq_false_iff.2 hvalid, htarget, hfolder, rfl⟩

/-- What was written to a path is read from it. -/
theorem read_write (h : folder.write path content = .ok folder') :
    folder'.read path = .ok content := by
  obtain ⟨place, hvalid, htarget, hfolder, rfl⟩ := exists_of_write h
  rw [read, hvalid, target_put htarget]
  simp only [isFolder_put_same hfolder, find?_put_same, Bool.false_eq_true, if_false]

/-! ## Faults -/

/-- What is wrong with a path that is read from is reported. -/
theorem isReported_read (h : folder.read path = .error fault) : fault.isReported = true := by
  rw [read] at h
  split at h
  · cases h; rfl
  · split at h
    · cases h; rfl
    · cases h; rfl
    · cases h; rfl
    · split at h
      · cases h; rfl
      · split at h
        · cases h; rfl
        · split at h
          · cases h; rfl
          · cases h

/-- What is wrong with a path that is written to is reported. -/
theorem isReported_write (h : folder.write path content = .error fault) :
    fault.isReported = true := by
  rw [write] at h
  split at h
  · cases h; rfl
  · split at h
    · cases h; rfl
    · cases h; rfl
    · cases h; rfl
    · split at h
      · cases h; rfl
      · cases h

end Polyrhythm.Folder
