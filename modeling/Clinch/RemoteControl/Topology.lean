import Clinch.RemoteControl.Envelope

/-!
# What the hash of a snapshot is fed

The loops of `snapshot` feed the hasher without lengths or brackets. What they feed still determines
the projects, tabs, sections, panes and tasks: a pane's text begins with `p`, a project's does not, a
tab's is followed by its section, and a task's follows its identifier.

* `WorkspaceSnapshot.topology`: what a snapshot says of the topology;
* `TopologyItem.decode`, `regroup`: reading back what was fed;
* `topology_injective`: the main result.
-/

set_option autoImplicit false

namespace Clinch

structure TabTopology where
  id : String
  group : Option (String × String)
  panes : List String
deriving DecidableEq

structure ProjectTopology where
  id : String
  tabs : List TabTopology
  tasks : List TaskSnapshot
deriving DecidableEq

/-- The identifier and the name of a tab's section. -/
def TabSnapshot.group (t : TabSnapshot) : Option (String × String) :=
  t.sectionId.bind fun id => t.sectionName.map fun name => (id, name)

def TabSnapshot.topology (t : TabSnapshot) : TabTopology :=
  ⟨t.id, t.group, t.panes.map PaneSnapshot.id⟩

def ProjectSnapshot.topology (p : ProjectSnapshot) : ProjectTopology :=
  ⟨p.id, p.tabs.map TabSnapshot.topology, p.tasks⟩

/-- The projects, tabs, sections, panes and tasks of a snapshot. -/
def WorkspaceSnapshot.topology (s : WorkspaceSnapshot) : List ProjectTopology :=
  s.projects.map ProjectSnapshot.topology

def Tab.topology (c : Crates) (p : Project) (t : Tab) : TabTopology :=
  ⟨t.opaqueId, p.section t, t.panes.map (Pane.opaqueId c)⟩

def Project.topology (c : Crates) (p : Project) : ProjectTopology :=
  ⟨p.opaqueId, p.tabs.map (Tab.topology c p), p.tasks.map fun task => ⟨⟨task.id⟩, task.text⟩⟩

def Desktop.topology (c : Crates) (d : Desktop) : List ProjectTopology :=
  d.projects.map (Project.topology c)

/-- What `snapshot` hashes. -/
def Desktop.hashWrites (c : Crates) (d : Desktop) : List HashWrite :=
  d.projects.flatMap (Project.hashWrites c)

theorem Desktop.fingerprint_eq (c : Crates) (d : Desktop) :
    d.fingerprint c = c.defaultHasher (d.hashWrites c) := rfl

/-! ## The snapshot and the desktop -/

namespace WorkspaceAdapter

variable (c : Crates) (d : Desktop) (now : DateTime)

theorem tabSnapshot_topology (p : Project) (a : WorkspaceAdapter) (t : Tab) :
    (tabSnapshot c d p a t).topology = t.topology c p := by
  have hpanes : (t.panes.map (paneSnapshot c d p t a)).map PaneSnapshot.id =
      t.panes.map (Pane.opaqueId c) := by
    rw [List.map_map]
    rfl
  rw [TabSnapshot.topology, Tab.topology, ← hpanes]
  cases h : p.section t with
  | none => simp [TabSnapshot.group, tabSnapshot, h]
  | some s => simp [TabSnapshot.group, tabSnapshot, h]

theorem projectSnapshot_topology (a : WorkspaceAdapter) (p : Project) :
    (projectSnapshot c d a p).topology = p.topology c := by
  have htabs : (p.tabs.map (tabSnapshot c d p a)).map TabSnapshot.topology =
      p.tabs.map (Tab.topology c p) := by
    rw [List.map_map]
    exact List.map_congr_left fun t _ => tabSnapshot_topology c d p a t
  rw [ProjectSnapshot.topology, Project.topology, ← htabs]
  rfl

/-- A snapshot shows the topology of the desktop. -/
theorem snapshot_topology (a : WorkspaceAdapter) :
    (a.snapshot c d now).1.topology = d.topology c := by
  rw [WorkspaceSnapshot.topology, Desktop.topology]
  simp only [snapshot, List.map_map]
  exact List.map_congr_left fun p _ => projectSnapshot_topology c d _ p

end WorkspaceAdapter

/-! ## Reading the feed -/

/-- What one round of a loop of `snapshot` feeds. -/
inductive TopologyItem
  | project (id : String)
  | tab (id : String) (group : Option (String × String))
  | pane (id : String)
  | task (task : TaskSnapshot)

namespace TopologyItem

def hashWrites : TopologyItem → List HashWrite
  | project id | pane id => [.str id]
  | tab id group => [.str id, .optionStrStr group]
  | task t => [.uuid t.id.uuid, .str t.text]

/-- The text of a pane begins with `p`. -/
def isPaneText (s : String) : Bool := s.toList.head? = some 'p'

def WellFormed : TopologyItem → Prop
  | project id => isPaneText id = false
  | pane id => isPaneText id = true
  | _ => True

def decode : List HashWrite → List TopologyItem
  | .str id :: .optionStrStr group :: rest => tab id group :: decode rest
  | .uuid id :: .str text :: rest => task ⟨⟨id⟩, text⟩ :: decode rest
  | .str id :: rest => (if isPaneText id then pane id else project id) :: decode rest
  | _ => []

/-- A round does not begin with a section. -/
theorem decode_str_append (id : String) (items : List TopologyItem) :
    decode (.str id :: items.flatMap hashWrites) =
      (if isPaneText id then pane id else project id) :: decode (items.flatMap hashWrites) := by
  cases items with
  | nil => rfl
  | cons item items => cases item <;> rfl

theorem decode_flatMap {items : List TopologyItem} (h : ∀ item ∈ items, item.WellFormed) :
    decode (items.flatMap hashWrites) = items := by
  induction items with
  | nil => rfl
  | cons item items ih =>
    have ih := ih fun item' hm => h item' (List.mem_cons_of_mem _ hm)
    have hitem := h item List.mem_cons_self
    cases item with
    | project id =>
      have hdec := decode_str_append id items
      rw [show isPaneText id = false from hitem, ih] at hdec
      exact hdec
    | pane id =>
      have hdec := decode_str_append id items
      rw [show isPaneText id = true from hitem, ih] at hdec
      exact hdec
    | tab id group => exact congrArg (tab id group :: ·) ih
    | task t => exact congrArg (task t :: ·) ih

/-- The rounds read from the end: the projects, and the tabs, panes and tasks that wait for their
project or their tab. -/
structure Groups where
  projects : List ProjectTopology
  tabs : List TabTopology
  panes : List String
  tasks : List TaskSnapshot

def regroup (item : TopologyItem) (g : Groups) : Groups :=
  match item with
  | project id => ⟨⟨id, g.tabs, g.tasks⟩ :: g.projects, [], [], []⟩
  | tab id group => { g with tabs := ⟨id, group, g.panes⟩ :: g.tabs, panes := [] }
  | pane id => { g with panes := id :: g.panes }
  | task t => { g with tasks := t :: g.tasks }

def ofTab (t : TabTopology) : List TopologyItem := tab t.id t.group :: t.panes.map pane

def ofProject (p : ProjectTopology) : List TopologyItem :=
  project p.id :: (p.tabs.flatMap ofTab ++ p.tasks.map task)

theorem foldr_tasks (tasks : List TaskSnapshot) (g : Groups) :
    (tasks.map task).foldr regroup g = { g with tasks := tasks ++ g.tasks } := by
  induction tasks with
  | nil => rfl
  | cons t tasks ih => rw [List.map_cons, List.foldr_cons, ih]; rfl

theorem foldr_panes (panes : List String) (g : Groups) :
    (panes.map pane).foldr regroup g = { g with panes := panes ++ g.panes } := by
  induction panes with
  | nil => rfl
  | cons id panes ih => rw [List.map_cons, List.foldr_cons, ih]; rfl

theorem foldr_tabs (tabs : List TabTopology) {g : Groups} (h : g.panes = []) :
    (tabs.flatMap ofTab).foldr regroup g = { g with tabs := tabs ++ g.tabs } := by
  induction tabs with
  | nil => rfl
  | cons t tabs ih =>
    rw [List.flatMap_cons, List.foldr_append, ih, ofTab, List.foldr_cons, foldr_panes]
    simp [regroup, h]

theorem foldr_projects (projects : List ProjectTopology) :
    (projects.flatMap ofProject).foldr regroup ⟨[], [], [], []⟩ = ⟨projects, [], [], []⟩ := by
  induction projects with
  | nil => rfl
  | cons p projects ih =>
    rw [List.flatMap_cons, List.foldr_append, ih, ofProject, List.foldr_cons, List.foldr_append,
      foldr_tasks, foldr_tabs _ rfl]
    simp [regroup]

end TopologyItem

/-! ## The texts of the identifiers -/

open TopologyItem

theorem isPaneText_pane (c : Crates) (q : Pane) : isPaneText (q.opaqueId c) = true := by
  simp [isPaneText, Pane.opaqueId]

theorem digitChar_ne_p {n : ℕ} (h : n < 16) : Nat.digitChar n ≠ 'p' := by
  interval_cases n <;> decide

theorem isPaneText_project (p : Project) : isPaneText p.opaqueId = false := by
  obtain ⟨b, bytes, hb⟩ : ∃ b bytes, p.id.bytes = b :: bytes := by
    refine List.exists_cons_of_ne_nil fun h => ?_
    have hlen := p.id.length
    rw [h] at hlen
    exact nomatch hlen
  have hne := digitChar_ne_p (n := b.toNat / 16) (by have := b.toNat_lt; omega)
  simp [isPaneText, Project.opaqueId, Uuid.toText, hb, lowerHex, hne]

theorem Project.hashWrites_eq (c : Crates) (p : Project) :
    p.hashWrites c = (ofProject (p.topology c)).flatMap TopologyItem.hashWrites := by
  have htabs : (((p.topology c).tabs).flatMap ofTab).flatMap TopologyItem.hashWrites =
      p.tabs.flatMap fun t => [.str t.opaqueId, .optionStrStr (p.section t)] ++
        t.panes.map fun q => .str (q.opaqueId c) := by
    rw [List.flatMap_assoc, Project.topology, List.flatMap_map]
    refine congrArg₂ _ (funext fun t => ?_) rfl
    simp [ofTab, Tab.topology, TopologyItem.hashWrites, List.map_eq_flatMap, List.flatMap_assoc]
  have htasks : ((p.topology c).tasks.map TopologyItem.task).flatMap TopologyItem.hashWrites =
      p.tasks.flatMap fun task => [.uuid task.id, .str task.text] := by
    simp [Project.topology, TopologyItem.hashWrites, List.flatMap_map]
  rw [ofProject, List.flatMap_cons, List.flatMap_append, htabs, htasks]
  rfl

theorem ofProject_wellFormed (c : Crates) (p : Project) :
    ∀ item ∈ ofProject (p.topology c), item.WellFormed := by
  intro item hm
  rcases List.mem_cons.mp hm with rfl | hm
  · exact isPaneText_project p
  rcases List.mem_append.mp hm with hm | hm
  · obtain ⟨t, ht, hm⟩ := List.mem_flatMap.mp hm
    rcases List.mem_cons.mp hm with rfl | hm
    · trivial
    · obtain ⟨t, -, rfl⟩ := List.mem_map.mp ht
      obtain ⟨id, hid, rfl⟩ := List.mem_map.mp hm
      obtain ⟨q, -, rfl⟩ := List.mem_map.mp hid
      exact isPaneText_pane c q
  · obtain ⟨t, -, rfl⟩ := List.mem_map.mp hm
    trivial

/-- The topology, read back from what is hashed. -/
theorem Desktop.regroup_decode (c : Crates) (d : Desktop) :
    ((decode (d.hashWrites c)).foldr regroup ⟨[], [], [], []⟩).projects = d.topology c := by
  have hfeed : d.hashWrites c =
      ((d.topology c).flatMap ofProject).flatMap TopologyItem.hashWrites := by
    rw [Desktop.hashWrites, Desktop.topology, List.flatMap_map, List.flatMap_assoc]
    exact congrArg₂ _ (funext fun p => p.hashWrites_eq c) rfl
  have hwf : ∀ item ∈ (d.topology c).flatMap ofProject, item.WellFormed := by
    intro item hm
    obtain ⟨p, hp, hm⟩ := List.mem_flatMap.mp hm
    obtain ⟨p, -, rfl⟩ := List.mem_map.mp hp
    exact ofProject_wellFormed c p item hm
  rw [hfeed, decode_flatMap hwf, foldr_projects]

/-- **What is hashed determines the topology.** -/
theorem topology_injective {c : Crates} {d d' : Desktop} (h : d.hashWrites c = d'.hashWrites c) :
    d.topology c = d'.topology c := by
  rw [← d.regroup_decode, h, d'.regroup_decode]

end Clinch
