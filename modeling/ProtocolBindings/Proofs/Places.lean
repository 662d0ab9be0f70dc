import ProtocolBindings.Proofs.Drafts
import ProtocolBindings.Workspace.Disk

namespace ProtocolBindings

/-- A fold that goes well is the fold of what its steps come to. -/
theorem Except.eq_foldl_of_foldlM {ε α β : Type} {f : β → α → Except ε β} {g : β → α → β}
    (step : ∀ b a c, f b a = .ok c → c = g b a) {as : List α} {b c : β}
    (h : as.foldlM f b = .ok c) : c = as.foldl g b := by
  induction as generalizing b with
  | nil =>
    cases h
    rfl
  | cons a as ih =>
    rw [List.foldlM_cons] at h
    obtain ⟨d, hd, h⟩ := bind_eq_ok.mp h
    rw [List.foldl_cons, ← step b a d hd]
    exact ih h

namespace Location

def along (place : Location) (segment : String) : Location :=
  if Path.isName segment then place ++ [segment]
  else if segment = ".." then place.dropLast
  else place

/-- Where a path leads to with a working directory. This is the same in every tree in which it leads
anywhere, so that one can speak of the place of a path before its directories are there. -/
def ofPath (home : Location) (path : String) : Location :=
  (Path.segments path).foldl along (if Path.isAbsolute path then [] else home)

theorem foldl_along_concat {name : String} (h : Path.isName name = true)
    (segments : List String) (start : Location) :
    (segments ++ [name]).foldl along start = segments.foldl along start ++ [name] := by
  rw [List.foldl_append, List.foldl_cons, List.foldl_nil, along, if_pos h]

theorem foldl_along_of_forall_empty {segments : List String} (h : ∀ s ∈ segments, s = "")
    (place : Location) : segments.foldl along place = place := by
  induction segments with
  | nil => rfl
  | cons segment segments ih =>
    obtain ⟨rfl, hrest⟩ := List.forall_mem_cons.mp h
    exact ih hrest

end Location

namespace FileTree

variable {t u : FileTree} {directory place : Location} {name segment path : String} {r : Route}

def Route.destination (r : Route) : Location :=
  r.segments.foldl Location.along r.start

/-- Slashes at the end of a path lead nowhere else. -/
theorem Route.destination_withoutSlashes (r : Route) :
    r.withoutSlashes.destination = r.destination := by
  have hsplit : r.segments = r.withoutSlashes.segments ++
      (r.segments.reverse.takeWhile (· = "")).reverse := by
    rw [withoutSlashes, ← List.reverse_append, List.takeWhile_append_dropWhile,
      List.reverse_reverse]
  have hempty : ∀ s ∈ (r.segments.reverse.takeWhile (· = "")).reverse, s = "" := by
    intro s hs
    have htake := List.all_eq_true.mp List.all_takeWhile s (List.mem_reverse.mp hs)
    exact of_decide_eq_true htake
  conv_rhs => rw [destination, hsplit, List.foldl_append]
  exact (Location.foldl_along_of_forall_empty hempty _).symm

theorem not_isBase_of_get?_ne (h : t.get? place ≠ some .directory) : t.isBase place = false := by
  cases hb : t.isBase place with
  | false => rfl
  | true => exact absurd (t.get?_of_isBase hb) h

theorem not_isBase_of_get?_eq_none (h : t.get? place = none) : t.isBase place = false := by
  apply not_isBase_of_get?_ne
  rw [h]
  exact (Option.some_ne_none _).symm

theorem entry_eq_ok (h : t.entry directory name = .ok place) : place = directory ++ [name] := by
  unfold entry at h
  split at h
  · cases h
  · cases h
  · split at h
    · cases h
    · cases h
      rfl

theorem follow_eq_ok (h : t.follow directory segment = .ok place) :
    place = directory.along segment := by
  obtain ⟨next, hentry, h⟩ := Except.bind_eq_ok.mp h
  unfold Location.along
  split at h
  · next hname =>
    rw [if_pos hname]
    split at h
    · cases h
      exact entry_eq_ok hentry
    · cases h
  · next hname =>
    rw [if_neg hname]
    split at h
    · next hparent =>
      cases h
      rw [if_pos hparent]
    · next hparent =>
      cases h
      rw [if_neg hparent]

theorem locate_eq_ok (h : t.locate r = .ok place) : place = r.destination :=
  Except.eq_foldl_of_foldlM (fun _ _ _ => follow_eq_ok) h

/-- An entry is located in a directory that is there, by a name. -/
theorem locateEntry_eq_ok (h : t.locateEntry r = .ok place) :
    ∃ directory name, r.segments = r.segments.dropLast ++ [name] ∧ Path.isName name = true ∧
      t.locate { r with segments := r.segments.dropLast } = .ok directory ∧
      t.entry directory name = .ok place := by
  obtain ⟨directory, hdirectory, h⟩ := Except.bind_eq_ok.mp h
  split at h
  · next name hlast =>
    split at h
    · next hname =>
      refine ⟨directory, name, ?_, hname, hdirectory, h⟩
      exact (List.dropLast_append_getLast? name hlast).symm
    · cases h
  · cases h

theorem destination_of_locateEntry (h : t.locateEntry r = .ok place) : place = r.destination := by
  obtain ⟨directory, name, hsegments, hname, hdirectory, hentry⟩ := locateEntry_eq_ok h
  rw [Route.destination, hsegments, Location.foldl_along_concat hname, entry_eq_ok hentry,
    locate_eq_ok hdirectory]
  rfl

/-- An entry that a way does not lead to is not there. -/
theorem get?_of_locateEntry {e : FileError} (h : t.locateEntry r = .ok place)
    (he : t.locate r = .error e) : t.get? place = none := by
  obtain ⟨directory, name, hsegments, hname, hdirectory, hentry⟩ := locateEntry_eq_ok h
  have hfollow : t.follow directory name = .error e := by
    rw [locate, hsegments, List.foldlM_append] at he
    rcases Except.bind_eq_error.mp he with he | ⟨_, hd, he⟩
    · cases hdirectory.symm.trans he
    · cases hdirectory.symm.trans hd
      rw [List.foldlM_cons] at he
      rcases Except.bind_eq_error.mp he with he | ⟨_, _, he⟩
      · exact he
      · cases he
  rcases Except.bind_eq_error.mp hfollow with hf | ⟨_, hp, hf⟩
  · cases hentry.symm.trans hf
  · cases hentry.symm.trans hp
    rw [if_pos hname] at hf
    split at hf
    · cases hf
    · next hnone => exact Option.not_isSome_iff_eq_none.mp hnone

theorem route_eq_ok (h : t.route path = .ok r) :
    r.segments = Path.segments path ∧ r.destination = Location.ofPath t.home path := by
  unfold route at h
  split at h
  · cases h
    exact ⟨rfl, rfl⟩
  · cases h

/-- Making sure of a directory changes nothing, or makes it where nothing was. -/
theorem makeDirectory_eq_ok (h : t.makeDirectory path = .ok u) :
    u = t ∨ t.get? (Location.ofPath t.home path) = none ∧
      u = t.put (Location.ofPath t.home path) .directory := by
  obtain ⟨r, hr, h⟩ := Except.bind_eq_ok.mp h
  rw [← (route_eq_ok hr).2, ← r.destination_withoutSlashes]
  dsimp only at h
  split at h
  · split at h
    · cases h
      exact .inl rfl
    · cases h
  · next he =>
    obtain ⟨place, hentry, h⟩ := Except.bind_eq_ok.mp h
    cases h
    rw [← destination_of_locateEntry hentry]
    exact .inr ⟨get?_of_locateEntry hentry he, rfl⟩
  · cases h

/-- A file is written to the place of its path, which is named by the last segment. -/
theorem write_eq_ok {content : ByteArray} (h : t.write path content = .ok u) :
    ∃ name, (Path.segments path).getLast? = some name ∧ Path.isName name = true ∧
      t.get? (Location.ofPath t.home path) ≠ some .directory ∧
      u = t.put (Location.ofPath t.home path) (.file content) := by
  obtain ⟨r, hr, h⟩ := Except.bind_eq_ok.mp h
  obtain ⟨place, hentry, h⟩ := Except.bind_eq_ok.mp h
  obtain ⟨hsegments, hplace⟩ := route_eq_ok hr
  obtain ⟨_, name, hsplit, hname, _, _⟩ := locateEntry_eq_ok hentry
  have hlast : (Path.segments path).getLast? = some name := by
    rw [← hsegments, hsplit, List.getLast?_concat]
  rw [← hplace, ← destination_of_locateEntry hentry]
  split at h
  · cases h
  · next hd =>
    cases h
    exact ⟨name, hlast, hname, hd, rfl⟩

end FileTree

end ProtocolBindings
