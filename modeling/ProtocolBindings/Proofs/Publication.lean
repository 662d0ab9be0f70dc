import ProtocolBindings.Proofs.Decoding
import ProtocolBindings.Proofs.Places
import ProtocolBindings.Proofs.Registration
import ProtocolBindings.Workspace.Command

namespace ProtocolBindings

namespace Location

/-- The place that a file with this path is written to. A path that does not end with a name is not
the path of a file. -/
def destination? (home : Location) (path : String) : Option Location :=
  if (Path.segments path).getLast?.any Path.isName then some (ofPath home path) else none

def ways (home : Location) (paths : List String) : List Location :=
  paths.flatMap fun path => (Path.directories path).map (ofPath home)

/-- Files with these paths do not get in each other's way: they have different destinations, where
neither directories nor temporary files are made for them. -/
structure Independent (home : Location) (paths : List String) : Prop where
  apart : (paths.filterMap (destination? home)).Nodup
  aside : ∀ place ∈ paths.filterMap (destination? home), place ∉ ways home paths
  lasting : ∀ path ∈ paths, ((Path.segments path).getLast?.any isTemporaryName) = false

instance (home : Location) (paths : List String) : Decidable (Independent home paths) :=
  decidable_of_iff
    ((paths.filterMap (destination? home)).Nodup ∧
      (∀ place ∈ paths.filterMap (destination? home), place ∉ ways home paths) ∧
      ∀ path ∈ paths, ((Path.segments path).getLast?.any isTemporaryName) = false)
    ⟨fun h => ⟨h.1, h.2.1, h.2.2⟩, fun h => ⟨h.apart, h.aside, h.lasting⟩⟩

end Location

namespace Artifact

def destination? (home : Location) (a : Artifact) : Option Location :=
  Location.destination? home a.path

def InPlace (home : Location) (a : Artifact) (tree : FileTree) : Prop :=
  ∃ place, a.destination? home = some place ∧ tree.get? place = some (.file a.content.toUTF8)

def Apart (home : Location) (a b : Artifact) : Prop :=
  ∀ place, a.destination? home = some place → b.destination? home ≠ some place

def Independent (home : Location) (artifacts : List Artifact) : Prop :=
  Location.Independent home (artifacts.map Artifact.path)

variable {home : Location} {a b : Artifact} {tree : FileTree} {place : Location}

/-- What is put elsewhere does not matter to an artifact in its place. -/
theorem InPlace.put (h : a.InPlace home tree) (hne : a.destination? home ≠ some place)
    (node : Node) : a.InPlace home (tree.put place node) := by
  obtain ⟨own, hown, hfile⟩ := h
  have hother : own ≠ place := fun he => hne (he ▸ hown)
  exact ⟨own, hown, (tree.get?_put_of_ne hother node).trans hfile⟩

/-- Where nothing is, no artifact is in place. -/
theorem InPlace.destination?_ne (h : a.InPlace home tree) (hn : tree.get? place = none) :
    a.destination? home ≠ some place := by
  obtain ⟨own, hown, hfile⟩ := h
  intro hplace
  cases hown.symm.trans hplace
  cases hn.symm.trans hfile

theorem Independent.apart_of_append {artifacts before after : List Artifact}
    (hi : Independent home artifacts) (hall : artifacts = before ++ after) (hb : b ∈ before)
    (ha : a ∈ after) : b.Apart home a := by
  have hpairs := List.pairwise_filterMap.mp hi.apart
  rw [List.pairwise_map, hall] at hpairs
  intro place hplace hother
  exact (List.pairwise_append.mp hpairs).2.2 b hb a ha place hplace place hother rfl

theorem destination?_eq_some {name : String}
    (hlast : (Path.segments a.path).getLast? = some name) (h : Path.isName name = true) :
    a.destination? home = some (Location.ofPath home a.path) := by
  rw [destination?, Location.destination?, hlast, Option.any_some, if_pos h]

theorem getLast?_of_destination? (h : a.destination? home = some place) :
    place.getLast? = (Path.segments a.path).getLast? := by
  unfold destination? Location.destination? at h
  split at h
  · next hname =>
    cases h
    cases hlast : (Path.segments a.path).getLast? with
    | none =>
      rw [hlast] at hname
      cases hname
    | some name =>
      rw [hlast, Option.any_some] at hname
      rw [Location.ofPath, ← List.dropLast_append_getLast? name hlast,
        Location.foldl_along_concat hname, List.getLast?_concat]
  · cases h

end Artifact

open Artifact (Independent)

/-- A tree holds at a place what `t` holds there. Where nothing was, there may be a directory that
artifacts lie in. -/
def FileTree.Keeps (t : FileTree) (artifacts : List Artifact) (tree : FileTree)
    (place : Location) : Prop :=
  tree.get? place = t.get? place ∨
    t.get? place = none ∧ tree.get? place = some .directory ∧
      place ∈ Location.ways t.home (artifacts.map Artifact.path)

/-- The place is one for temporary files, and nothing was there in `t`. -/
def FileTree.Spares (t : FileTree) (place : Location) : Prop :=
  t.get? place = none ∧ ∃ name, place.getLast? = some name ∧ isTemporaryName name = true

/-- How far the writing of artifacts to the tree `t` has come: some of them are in place, and
nothing else is touched, the place of the temporary file apart. -/
structure Underway (t : FileTree) (artifacts placed : List Artifact) (temporary : Option Location)
    (tree : FileTree) : Prop where
  home : tree.home = t.home
  first : placed <+: artifacts
  complete : ∀ a ∈ placed, a.InPlace t.home tree
  kept : ∀ place, temporary ≠ some place → (∀ a ∈ placed, a.destination? t.home ≠ some place) →
    t.Keeps artifacts tree place
  /-- The temporary file is where nothing was, and not where an artifact belongs. -/
  aside : ∀ place, temporary = some place →
    t.Spares place ∧ ∀ a ∈ artifacts, a.destination? t.home ≠ some place

namespace Underway

variable {t tree next : FileTree} {artifacts placed upcoming : List Artifact} {a : Artifact}
  {place : Location} {temporary : Option Location} {path : String}

theorem start (t : FileTree) (artifacts : List Artifact) : Underway t artifacts [] none t where
  home := rfl
  first := List.nil_prefix
  complete := List.forall_mem_nil _
  kept := fun _ _ _ => .inl rfl
  aside := fun _ h => absurd h.symm (Option.some_ne_none _)

/-- The temporary file may hold anything. -/
theorem congr (h : Underway t artifacts placed temporary tree) (hh : next.home = tree.home)
    (he : ∀ place, temporary ≠ some place → next.get? place = tree.get? place) :
    Underway t artifacts placed temporary next where
  home := hh.trans h.home
  first := h.first
  complete := by
    intro a ha
    obtain ⟨place, hplace, hfile⟩ := h.complete a ha
    have hne : temporary ≠ some place := fun ht =>
      (h.aside place ht).2 a (h.first.subset ha) hplace
    exact ⟨place, hplace, (he place hne).trans hfile⟩
  kept := by
    intro place hne hplaced
    rw [FileTree.Keeps, he place hne]
    exact h.kept place hne hplaced
  aside := h.aside

theorem put (h : Underway t artifacts placed (some place) tree) (node : Node) :
    Underway t artifacts placed (some place) (tree.put place node) := by
  refine h.congr rfl ?_
  intro other ho
  exact tree.get?_put_of_ne (fun he => ho (congrArg some he.symm)) node

/-- What is not there was not there before. -/
theorem get?_eq_none (h : Underway t artifacts placed none tree) (hn : tree.get? place = none) :
    t.get? place = none := by
  have hplaced : ∀ a ∈ placed, a.destination? t.home ≠ some place := fun a ha =>
    (h.complete a ha).destination?_ne hn
  rcases h.kept place (Option.some_ne_none place).symm hplaced with hk | ⟨hk, _, _⟩
  · exact hk.symm.trans hn
  · exact hk

theorem makeDirectory (h : Underway t artifacts placed none tree)
    (hw : Location.ofPath t.home path ∈ Location.ways t.home (artifacts.map Artifact.path))
    (hm : tree.makeDirectory path = .ok next) : Underway t artifacts placed none next := by
  rw [← h.home] at hw
  rcases FileTree.makeDirectory_eq_ok hm with rfl | ⟨hn, rfl⟩
  · exact h
  · have hbase := FileTree.not_isBase_of_get?_eq_none hn
    refine ⟨h.home, h.first, ?_, ?_, h.aside⟩
    · intro a ha
      have hin := h.complete a ha
      exact hin.put (hin.destination?_ne hn) _
    · intro place hne hplaced
      by_cases hp : place = Location.ofPath tree.home path
      · subst hp
        exact .inr ⟨h.get?_eq_none hn, tree.get?_put_self hbase _, h.home ▸ hw⟩
      · rw [FileTree.Keeps, tree.get?_put_of_ne hp]
        exact h.kept place hne hplaced

theorem openTemporary {name : String} (h : Underway t artifacts placed none tree)
    (hi : Independent t.home artifacts) (hn : tree.get? place = none)
    (hlast : place.getLast? = some name) (hname : isTemporaryName name = true) (node : Node) :
    Underway t artifacts placed (some place) (tree.put place node) := by
  have haside : ∀ a ∈ artifacts, a.destination? t.home ≠ some place := by
    intro a ha hplace
    have hlasting := hi.lasting a.path (List.mem_map_of_mem ha)
    rw [← Artifact.getLast?_of_destination? hplace, hlast, Option.any_some, hname] at hlasting
    cases hlasting
  have hopened : Underway t artifacts placed (some place) tree :=
    { home := h.home
      first := h.first
      complete := h.complete
      kept := fun other _ => h.kept other (Option.some_ne_none other).symm
      aside := by
        intro other ho
        cases ho
        exact ⟨⟨h.get?_eq_none hn, name, hlast, hname⟩, haside⟩ }
  exact hopened.put node

/-- Where nothing was, no directory around the working directory is. -/
theorem not_isBase (h : Underway t artifacts placed temporary tree) (hn : t.get? place = none) :
    tree.isBase place = false := by
  have hbase := FileTree.not_isBase_of_get?_eq_none hn
  rwa [FileTree.isBase, ← h.home] at hbase

theorem abandon (h : Underway t artifacts placed (some place) tree) :
    Underway t artifacts placed none (tree.remove place) := by
  have hn := (h.aside place rfl).1.1
  have hbase := h.not_isBase hn
  have hnext : Underway t artifacts placed (some place) (tree.remove place) := by
    refine h.congr rfl ?_
    intro other ho
    exact tree.get?_remove_of_ne fun he => ho (congrArg some he.symm)
  refine ⟨h.home, h.first, hnext.complete, ?_, (start t artifacts).aside⟩
  intro other _ hplaced
  by_cases he : other = place
  · subst he
    exact .inl ((tree.get?_remove_self hbase).trans hn.symm)
  · exact hnext.kept other (fun ho => he (Option.some.inj ho).symm) hplaced

/-- One more artifact takes its place. -/
theorem finish (h : Underway t artifacts placed none tree)
    (hi : Independent t.home artifacts) (hall : artifacts = placed ++ a :: upcoming)
    (ha : a.destination? t.home = some place)
    (hdir : tree.get? place ≠ some .directory) :
    Underway t artifacts (placed ++ [a]) none (tree.put place (.file a.content.toUTF8)) := by
  have hbase := FileTree.not_isBase_of_get?_ne hdir
  refine ⟨h.home, ?_, ?_, ?_, h.aside⟩
  · exact ⟨upcoming, by rw [hall, List.append_assoc, List.singleton_append]⟩
  · intro b hb
    rcases List.mem_append.mp hb with hb | hb
    · have hapart := hi.apart_of_append hall hb List.mem_cons_self
      exact (h.complete b hb).put (fun hplace => hapart place hplace ha) _
    · cases List.mem_singleton.mp hb
      exact ⟨place, ha, tree.get?_put_self hbase _⟩
  · intro other hne hplaced
    have hother : other ≠ place := by
      rintro rfl
      exact hplaced a (List.mem_append_right _ List.mem_cons_self) ha
    rw [FileTree.Keeps, tree.get?_put_of_ne hother]
    exact h.kept other hne fun b hb => hplaced b (List.mem_append_left _ hb)

end Underway

namespace Disk

variable {system : System} {number : Nat} {d next : Disk} {path : String}

theorem perform_checkPath (h : d.perform system number (.checkPath path) = .ok next) :
    next = d := by
  obtain ⟨_, _, h⟩ := Except.bind_eq_ok.mp h
  cases h
  rfl

theorem perform_makeDirectory (h : d.perform system number (.makeDirectory path) = .ok next) :
    ∃ tree, d.tree.makeDirectory path = .ok tree ∧ next = { d with tree } := by
  obtain ⟨tree, htree, h⟩ := Except.bind_eq_ok.mp h
  cases h
  exact ⟨tree, htree, rfl⟩

/-- The temporary file is made where nothing is, under a name of its own. -/
theorem perform_openTemporary (h : d.perform system number (.openTemporary path) = .ok next) :
    ∃ place name, place.getLast? = some name ∧ isTemporaryName name = true ∧
      d.tree.get? place = none ∧
      next = { tree := d.tree.put place (.file .empty), temporary := some place } := by
  obtain ⟨_, _, h⟩ := Except.bind_eq_ok.mp h
  obtain ⟨directory, _, h⟩ := Except.bind_eq_ok.mp h
  split at h
  · cases h
  · next name hdraw =>
    obtain ⟨_, _, h⟩ := Except.bind_eq_ok.mp h
    cases h
    exact ⟨directory ++ [name], name, List.getLast?_concat, system.draw_temporary _ _ _ _ hdraw,
      system.draw_new _ _ _ _ hdraw, rfl⟩

theorem perform_place {place : Location} {bytes : ByteArray} (ht : d.temporary = some place)
    (hf : d.tree.get? place = some (.file bytes))
    (h : d.perform system number (.place path) = .ok next) :
    ∃ tree, (d.tree.remove place).write path bytes = .ok tree ∧ next = { tree } := by
  rw [perform, ht, Option.bind_some, hf, Option.map_some] at h
  obtain ⟨tree, htree, h⟩ := Except.bind_eq_ok.mp h
  cases h
  exact ⟨tree, htree, rfl⟩

end Disk

/-- The disk is at a point of writing artifacts, and these are the actions left. -/
inductive Ahead (t : FileTree) (artifacts : List Artifact) : List Action → Disk → Prop
  | between {placed upcoming : List Artifact} {tree : FileTree}
      (hall : artifacts = placed ++ upcoming) (h : Underway t artifacts placed none tree) :
      Ahead t artifacts (upcoming.flatMap Artifact.actions) { tree }
  | preparing {placed upcoming : List Artifact} {a : Artifact} {directories : List String}
      {tree : FileTree} (hall : artifacts = placed ++ a :: upcoming)
      (hd : directories ⊆ Path.directories a.path) (h : Underway t artifacts placed none tree) :
      Ahead t artifacts
        (directories.map .makeDirectory ++
          .openTemporary a.path :: .fill a.content :: .place a.path ::
            upcoming.flatMap Artifact.actions) { tree }
  | opened {placed upcoming : List Artifact} {a : Artifact} {tree : FileTree} {place : Location}
      (hall : artifacts = placed ++ a :: upcoming)
      (h : Underway t artifacts placed (some place) tree) :
      Ahead t artifacts
        (.fill a.content :: .place a.path :: upcoming.flatMap Artifact.actions)
        { tree, temporary := some place }
  | filled {placed upcoming : List Artifact} {a : Artifact} {tree : FileTree} {place : Location}
      (hall : artifacts = placed ++ a :: upcoming)
      (h : Underway t artifacts placed (some place) tree)
      (hfile : tree.get? place = some (.file a.content.toUTF8)) :
      Ahead t artifacts (.place a.path :: upcoming.flatMap Artifact.actions)
        { tree, temporary := some place }

namespace Ahead

variable {t : FileTree} {artifacts : List Artifact} {left actions : List Action} {action : Action}
  {d next : Disk} {system : System} {number : Nat}

theorem start (t : FileTree) (artifacts : List Artifact) :
    Ahead t artifacts (Artifact.allActions artifacts) { tree := t } :=
  .between (List.nil_append artifacts).symm (Underway.start t artifacts)

theorem underway (h : Ahead t artifacts left d) :
    ∃ placed, Underway t artifacts placed d.temporary d.tree := by
  cases h with
  | between _ h => exact ⟨_, h⟩
  | preparing _ _ h => exact ⟨_, h⟩
  | opened _ h => exact ⟨_, h⟩
  | filled _ h _ => exact ⟨_, h⟩

theorem complete (h : Ahead t artifacts left d) (hl : left = []) :
    d.temporary = none ∧ ∀ a ∈ artifacts, a.InPlace t.home d.tree := by
  cases h with
  | @between placed upcoming tree hall h =>
    cases upcoming with
    | nil =>
      rw [List.append_nil] at hall
      exact ⟨rfl, hall ▸ h.complete⟩
    | cons a upcoming => cases hl
  | preparing => exact absurd hl (List.append_ne_nil_of_right_ne_nil _ (List.cons_ne_nil _ _))
  | opened => cases hl
  | filled => cases hl

/-- What an action leads to, if it goes well. -/
theorem step (hi : Independent t.home artifacts) (h : Ahead t artifacts left d)
    (hl : left = action :: actions) (hp : d.perform system number action = .ok next) :
    Ahead t artifacts actions next := by
  cases h with
  | @between placed upcoming tree hall h =>
    cases upcoming with
    | nil => cases hl
    | cons a upcoming =>
      rw [List.flatMap_cons, Artifact.actions, List.cons_append, List.cons_append,
        List.append_assoc] at hl
      cases hl
      cases Disk.perform_checkPath hp
      exact .preparing hall (List.Subset.refl _) h
  | @preparing placed upcoming a directories tree hall hsub h =>
    cases directories with
    | nil =>
      cases hl
      obtain ⟨place, name, hlast, hname, hnone, rfl⟩ := Disk.perform_openTemporary hp
      exact .opened hall (h.openTemporary hi hnone hlast hname _)
    | cons path directories =>
      cases hl
      obtain ⟨hpath, hrest⟩ := List.cons_subset.mp hsub
      obtain ⟨after, hmade, rfl⟩ := Disk.perform_makeDirectory hp
      have ha : a ∈ artifacts := hall ▸ List.mem_append_right _ List.mem_cons_self
      have hway : Location.ofPath t.home path ∈
          Location.ways t.home (artifacts.map Artifact.path) :=
        List.mem_flatMap.mpr ⟨a.path, List.mem_map_of_mem ha, List.mem_map_of_mem hpath⟩
      exact .preparing hall hrest (h.makeDirectory hway hmade)
  | @opened placed upcoming a tree place hall h =>
    cases hl
    cases hp
    have hbase := h.not_isBase (h.aside place rfl).1.1
    exact .filled hall (h.put _) (tree.get?_put_self hbase _)
  | @filled placed upcoming a tree place hall h hfile =>
    cases hl
    obtain ⟨after, hwritten, rfl⟩ := Disk.perform_place rfl hfile hp
    obtain ⟨name, hlast, hname, hdir, rfl⟩ := FileTree.write_eq_ok hwritten
    have habandoned := h.abandon
    rw [habandoned.home] at hdir ⊢
    have hnext := habandoned.finish hi hall (Artifact.destination?_eq_some hlast hname) hdir
    exact .between (hall.trans (List.append_cons placed a upcoming)) hnext

end Ahead

/-- Actions lead from a disk through others to an outcome while artifacts are written. -/
structure Passage (t : FileTree) (artifacts : List Artifact) (d : Disk)
    (run : List Disk × Except FileError Unit) : Prop where
  underway : ∀ x ∈ d :: run.1, ∃ placed, Underway t artifacts placed x.temporary x.tree
  clean : (run.1.getLastD d).temporary = none
  complete : run.2 = .ok () → ∀ a ∈ artifacts, a.InPlace t.home (run.1.getLastD d).tree

theorem Passage.cons {t : FileTree} {artifacts : List Artifact} {d next : Disk}
    {run : List Disk × Except FileError Unit} (h : Passage t artifacts next run)
    (hd : ∃ placed, Underway t artifacts placed d.temporary d.tree) :
    Passage t artifacts d (next :: run.1, run.2) where
  underway := List.forall_mem_cons.mpr ⟨hd, h.underway⟩
  clean := by
    rw [List.getLastD_cons]
    exact h.clean
  complete := by
    intro hok
    rw [List.getLastD_cons]
    exact h.complete hok

namespace Underway

variable {t tree : FileTree} {artifacts placed : List Artifact} {a : Artifact} {place : Location}
  {temporary : Option Location}

end Underway

namespace Command

variable (system : System) {options : Options} (command : Command) {t : FileTree}

def paths (options : Options) (output : String) : List String :=
  (options.headerPath :: options.sourcePath.toList).map (Path.join output)

/-- A model in the working directory, and bindings from an earlier run outside of it. -/
def shelf : FileTree where
  home := ["work"]
  nodes := [
    (["work", "model.json"], .file catalogText.toUTF8),
    (["out"], .directory),
    (["out", "include"], .directory),
    (["out", "include", "LSProtocol.h"], .file "// Bindings".toUTF8)]

def desk : FileTree where
  nodes := [(["model.json"], .file "\x7b\x7d".toUTF8)]

end Command

end ProtocolBindings
