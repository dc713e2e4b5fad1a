/-
The driver table over a run.

Every call comes to loads and unloads, one after the other
(`run_events`): a reload is a load of each child, since the name of a
child never is too long for its path. One load and one unload are taken
apart once (`loadPath_cases`, `unload_cases`).
-/
import Clks.Driver.Table

namespace Clks.Driver

open Sys Exec

-- ==== the events

/-- A load or an unload. -/
inductive Event
  | load (path : List UInt8) (a : Answers)
  | unload (nameOrPath : List UInt8)
  deriving DecidableEq, Repr

namespace Table

def step (t : Table) : Event → Table
  | .load path a => (t.loadPath path a).2
  | .unload nameOrPath => (t.unload nameOrPath).2

def steps (t : Table) (es : List Event) : Table := es.foldl step t

end Table

/-- The load of a child. -/
def childLoad : Option ChildName × Answers → Option Event
  | (none, _) => none
  | (some child, a) =>
    if hasElfSuffix child.val = false then none
    else some (.load (driverDir ++ child.val) a)

/-- The loads and unloads that a call comes to. -/
def Op.events : Op → List Event
  | .load allowed m arg0 a =>
    if !allowed then []
    else ((copyString m Sys.pathMax arg0).map fun path =>
      Event.load path a).toList
  | .unload allowed m arg0 =>
    if !allowed then []
    else ((copyString m Sys.pathMax arg0).map Event.unload).toList
  | .reload allowed fsReady children =>
    if !allowed || !fsReady then [] else children.filterMap childLoad

/-- The loads and unloads of a run, from the cleared table on. -/
def trace (ops : List Op) : List Event := ops.flatMap Op.events

/-- The table after a run. -/
def run (ops : List Op) : Table :=
  ops.foldl (fun t op => (op.run t).2) .cleared

/-- The states of a run, also those within a reload. -/
def Reached (ops : List Op) (t : Table) : Prop :=
  ∃ before after, trace ops = before ++ after ∧ Table.cleared.steps before = t

/-- A load or an unload of a run, and the state that it finds. -/
def Happens (ops : List Op) (t : Table) (e : Event) : Prop :=
  ∃ before after, trace ops = before ++ e :: after ∧
    Table.cleared.steps before = t

-- ==== the purpose

def Info.isLoaded (e : Info) : Bool := e.state == .loaded

/-- Two entries that are loaded differ in their name and in their path. -/
def Apart (e e' : Info) : Prop :=
  e.isLoaded = true → e'.isLoaded = true → e.name ≠ e'.name ∧ e.path ≠ e'.path

namespace Table

variable (t : Table)

def loadedCount : Nat := t.entries.countP Info.isLoaded

def loadedElfCount : Nat :=
  t.entries.countP fun e => e.isLoaded && (e.fromElf && e.kind == .elf)

/-- No two entries are loaded under one name or path, and the loaded ELF
entries are counted. -/
structure Sound : Prop where
  apart : t.entries.Pairwise Apart
  counted : t.elfCount.toNat = t.loadedElfCount

/-- Nothing but the table is left to refuse a load. -/
structure Reaches (path : List UInt8) (a : Answers) : Prop where
  fsReady : a.fsReady = true
  slash : path.head? = some slash
  suffix : hasElfSuffix path = true
  newPath : t.find path = none
  newName : t.find (metadataForElf path).1 = none
  newBase : t.find (basename path) = none
  image : a.imageSize.isSome = true
  entry : a.elfEntry.isSome = true
  owner : a.ownerPid.isSome = true

/-- A load that nothing but the table could refuse succeeds. -/
def Serves : Event → Prop
  | .load path a => t.Reaches path a → (t.loadPath path a).1 ≠ 0
  | .unload _ => True

/-- A load that comes to the table finds an entry that was never used, and
no loaded entry with its name, cut off at the end of the field. -/
def Admits : Event → Prop
  | .load path a => t.Reaches path a →
      t.entries.length < driverMax ∧
        ∀ e ∈ t.entries, e.isLoaded = true →
          e.name ≠ copyName driverNameMax (metadataForElf path).1
  | .unload _ => True

end Table

-- ==== what they come to

section events

variable {t : Table}

theorem buildPath_child (child : ChildName) :
    buildPath child.val scanPathMax = some (driverDir ++ child.val) := by
  have hlt := child.property
  have hdir : driverDir.length = 16 := by decide
  have hmax : child.val.length < 96 := hlt
  unfold buildPath
  rw [if_neg]
  rw [hdir]
  show ¬ (224 = 0 ∨ 224 < 16 + child.val.length + 1)
  omega

theorem reloadLoop_steps (children : List (Option ChildName × Answers))
    (loaded : UInt64) :
    (Table.reloadLoop children (loaded, t)).2
      = t.steps (children.filterMap childLoad) := by
  induction children generalizing loaded t with
  | nil => rfl
  | cons head rest ih =>
    obtain ⟨child, a⟩ := head
    cases child with
    | none =>
      rw [List.filterMap_cons_none rfl]
      exact ih loaded
    | some child =>
      by_cases helf : hasElfSuffix child.val = false
      · rw [List.filterMap_cons_none (by simp [childLoad, helf]),
          Table.reloadLoop, if_pos helf]
        exact ih loaded
      · rw [List.filterMap_cons_some (by
            unfold childLoad
            exact if_neg helf),
          Table.reloadLoop, if_neg helf, buildPath_child]
        exact ih _

theorem Op.run_events (op : Op) : (op.run t).2 = t.steps op.events := by
  cases op with
  | load allowed m arg0 a =>
    cases allowed with
    | false => rfl
    | true =>
      cases hcopied : copyString m Sys.pathMax arg0 with
      | none => simp [Op.run, Op.events, hcopied, Table.steps]
      | some path =>
        simp [Op.run, Op.events, hcopied, Table.steps, Table.step]
  | unload allowed m arg0 =>
    cases allowed with
    | false => rfl
    | true =>
      cases hcopied : copyString m Sys.pathMax arg0 with
      | none => simp [Op.run, Op.events, hcopied, Table.steps]
      | some path =>
        simp [Op.run, Op.events, hcopied, Table.steps, Table.step]
  | reload allowed fsReady children =>
    cases allowed with
    | false => rfl
    | true =>
      cases fsReady with
      | false => rfl
      | true => exact reloadLoop_steps children 0

theorem run_eq_steps (ops : List Op) :
    run ops = Table.cleared.steps (trace ops) := by
  have hfrom : ∀ t : Table, ops.foldl (fun t op => (op.run t).2) t
      = t.steps (trace ops) := by
    induction ops with
    | nil => exact fun _ => rfl
    | cons op ops ih =>
      intro t
      unfold trace Table.steps at *
      rw [List.foldl_cons, List.flatMap_cons, List.foldl_append, ih,
        op.run_events]
      rfl
  exact hfrom _

theorem Op.load_short {op : Op} {path : List UInt8} {a : Answers}
    (h : Event.load path a ∈ op.events) : path.length < driverPathMax := by
  cases op with
  | load allowed m arg0 b =>
    simp only [Op.events] at h
    split at h
    · cases h
    · rw [Option.mem_toList, Option.map_eq_some_iff] at h
      obtain ⟨copied, hcopied, heq⟩ := h
      have hle := copyString_length_le (by decide) hcopied
      cases heq
      exact Nat.lt_succ_of_le hle
  | unload allowed m arg0 =>
    simp only [Op.events] at h
    split at h
    · cases h
    · rw [Option.mem_toList, Option.map_eq_some_iff] at h
      obtain ⟨copied, -, heq⟩ := h
      cases heq
  | reload allowed fsReady children =>
    simp only [Op.events] at h
    split at h
    · cases h
    · obtain ⟨⟨child, b⟩, -, hload⟩ := List.mem_filterMap.mp h
      cases child with
      | none => cases hload
      | some child =>
        simp only [childLoad] at hload
        split at hload
        · cases hload
        · cases hload
          have hlt := child.property
          have hdir : driverDir.length = 16 := by decide
          have hmax : child.val.length < 96 := hlt
          rw [List.length_append, hdir]
          show 16 + child.val.length < 192
          omega

end events

-- ==== the two steps

section cases

variable (t : Table) (path nameOrPath : List UInt8) (a : Answers)

/-- What a load that is served appends. -/
structure Fresh (t : Table) (path : List UInt8) (slot : Info) : Prop where
  name : slot.name = copyName driverNameMax (metadataForElf path).1
  path : slot.path = copyName driverPathMax path
  kind : slot.kind = .elf
  state : slot.state = .loaded
  fromElf : slot.fromElf = true
  loadId : slot.loadId = t.nextLoadId

theorem Table.loadPath_cases :
    (¬ t.Reaches path a ∧ t.loadPath path a = (0, t)) ∨
    (t.Reaches path a ∧ driverMax ≤ t.entries.length ∧
      t.loadPath path a = (0, t)) ∨
    (t.Reaches path a ∧ t.entries.length < driverMax ∧
      ∃ slot, Fresh t path slot ∧ t.loadPath path a
        = (t.nextLoadId, ⟨t.entries ++ [slot], t.elfCount + 1,
            t.followingLoadId⟩)) := by
  unfold Table.loadPath
  by_cases hready : a.fsReady = true
  swap
  · refine .inl ⟨fun h => hready h.fsReady, if_pos ?_⟩
    rw [Bool.eq_false_iff.mpr hready]
    rfl
  rw [hready, if_neg (by decide)]
  by_cases hpath : path.head? ≠ some slash ∨ hasElfSuffix path = false
  · refine .inl ⟨fun h => ?_, if_pos hpath⟩
    cases hpath with
    | inl hslash => exact hslash h.slash
    | inr hsuffix => exact Bool.noConfusion (h.suffix.symm.trans hsuffix)
  rw [if_neg hpath]
  obtain ⟨hslash, hsuffix⟩ := not_or.mp hpath
  simp only []
  by_cases hfound : ((t.find path).isSome
      || (t.find (metadataForElf path).1).isSome
      || (t.find (basename path)).isSome) = true
  · refine .inl ⟨fun h => ?_, if_pos hfound⟩
    rw [h.newPath, h.newName, h.newBase] at hfound
    cases hfound
  rw [if_neg hfound]
  simp only [Bool.or_eq_true, not_or, Bool.not_eq_true,
    Option.isSome_eq_false_iff, Option.isNone_iff_eq_none] at hfound
  obtain ⟨⟨hnewPath, hnewName⟩, hnewBase⟩ := hfound
  cases himage : a.imageSize with
  | none => exact .inl ⟨fun h => by simpa [himage] using h.image, rfl⟩
  | some imageSize =>
  cases hentry : a.elfEntry with
  | none => exact .inl ⟨fun h => by simpa [hentry] using h.entry, rfl⟩
  | some elfEntry =>
  cases howner : a.ownerPid with
  | none => exact .inl ⟨fun h => by simpa [howner] using h.owner, rfl⟩
  | some ownerPid =>
  have hreaches : t.Reaches path a :=
    ⟨hready, not_ne_iff.mp hslash, Bool.of_not_eq_false hsuffix,
      hnewPath, hnewName, hnewBase, by rw [himage]; rfl, by rw [hentry]; rfl,
      by rw [howner]; rfl⟩
  refine .inr ?_
  unfold Table.push
  by_cases hroom : driverMax ≤ t.entries.length
  · refine .inl ⟨hreaches, hroom, ?_⟩
    simp only [if_pos hroom]
  · refine .inr ⟨hreaches, Nat.lt_of_not_le hroom,
      ⟨copyName driverNameMax (metadataForElf path).1,
        copyName driverPathMax path, .elf, .loaded, (metadataForElf path).2,
        true, imageSize, elfEntry, t.nextLoadId, ownerPid⟩,
      ⟨rfl, rfl, rfl, rfl, rfl, rfl⟩, ?_⟩
    simp only [if_neg hroom, List.getLast?_append, List.getLast?_singleton]
    rfl

theorem Table.unload_cases :
    (t.unload nameOrPath).2 = t ∨
    ∃ (i : Nat) (h : i < t.entries.length),
      t.entries[i].state ≠ .unloaded ∧ t.entries[i].fromElf = true ∧
        t.entries[i].kind = .elf ∧
        (t.unload nameOrPath).2
          = { t with
              entries := t.entries.set i
                { t.entries[i] with state := .unloaded }
              elfCount :=
                if 0 < t.elfCount then t.elfCount - 1 else t.elfCount } := by
  unfold Table.unload
  cases hfind : t.find nameOrPath with
  | none => exact .inl rfl
  | some index =>
    unfold Table.find at hfind
    split at hfind
    · cases hfind
    · obtain ⟨hlt, hhits, -⟩ := List.findIdx?_eq_some_iff_getElem.mp hfind
      simp only [List.getElem?_eq_getElem hlt]
      by_cases hkind : t.entries[index].fromElf = false ∨
          t.entries[index].kind ≠ .elf
      · exact .inl (by rw [if_pos hkind])
      · refine .inr ⟨index, hlt, ?_, ?_, ?_, by rw [if_neg hkind]⟩
        · unfold Table.hits at hhits
          intro hunloaded
          rw [hunloaded] at hhits
          cases hhits
        · exact Bool.of_not_eq_false fun h => hkind (.inl h)
        · exact not_ne_iff.mp fun h => hkind (.inr h)

theorem Table.find_eq_none {t : Table} {q : List UInt8} (hq : q ≠ [])
    (h : t.find q = none) {e : Info} (he : e ∈ t.entries)
    (hstate : e.state ≠ .unloaded) : e.name ≠ q ∧ e.path ≠ q := by
  unfold Table.find at h
  rw [if_neg hq, List.findIdx?_eq_none_iff] at h
  have hhits := h e he
  unfold Table.hits at hhits
  simpa [hstate] using hhits

end cases

-- ==== what is kept

section kept

variable {t : Table} {path nameOrPath : List UInt8} {a : Answers} {e : Event}

/-- Every entry is an ELF driver that is loaded or was unloaded, and the
loaded ones are counted. -/
structure Kept (t : Table) : Prop where
  elf : ∀ e ∈ t.entries, e.kind = .elf ∧ e.fromElf = true ∧
    (e.state = .loaded ∨ e.state = .unloaded)
  room : t.entries.length ≤ driverMax
  nextId : t.nextLoadId ≠ 0
  counted : t.elfCount.toNat = t.loadedElfCount

theorem kept_cleared : Kept .cleared where
  elf _ he := nomatch he
  room := Nat.zero_le _
  nextId := by decide
  counted := rfl

theorem Kept.loaded_of (h : Kept t) {e : Info} (he : e ∈ t.entries)
    (hstate : e.state ≠ .unloaded) : e.state = .loaded :=
  (h.elf e he).2.2.resolve_right hstate

theorem followingLoadId_ne_zero (t : Table) : t.followingLoadId ≠ 0 := by
  unfold Table.followingLoadId
  split
  · decide
  · next hne => exact hne

theorem kept_load (h : Kept t) : Kept (t.loadPath path a).2 := by
  rcases t.loadPath_cases path a with
    ⟨-, hsame⟩ | ⟨-, -, hsame⟩ | ⟨-, hroom, slot, hslot, hnew⟩
  · rw [hsame]
    exact h
  · rw [hsame]
    exact h
  · rw [hnew]
    refine ⟨fun e he => ?_, ?_, followingLoadId_ne_zero t, ?_⟩
    · cases List.mem_append.mp he with
      | inl hold => exact h.elf e hold
      | inr hlast =>
        cases List.mem_singleton.mp hlast
        exact ⟨hslot.kind, hslot.fromElf, .inl hslot.state⟩
    · show (t.entries ++ [slot]).length ≤ driverMax
      rw [List.length_append]
      exact hroom
    · have hle : t.loadedElfCount ≤ t.entries.length :=
        List.countP_le_length
      have hroom' : t.entries.length < 32 := hroom
      have hcount := h.counted
      have hone : Table.loadedElfCount ⟨t.entries ++ [slot], t.elfCount + 1,
          t.followingLoadId⟩ = t.loadedElfCount + 1 := by
        unfold Table.loadedElfCount Info.isLoaded
        rw [List.countP_append, List.countP_singleton, hslot.state,
          hslot.fromElf, hslot.kind]
        rfl
      rw [hone]
      show (t.elfCount + 1).toNat = _
      rw [UInt64.toNat_add, hcount]
      exact Nat.mod_eq_of_lt (by
        show t.loadedElfCount + 1 < 2 ^ 64
        omega)

theorem kept_unload (h : Kept t) : Kept (t.unload nameOrPath).2 := by
  rcases t.unload_cases nameOrPath with
    hsame | ⟨i, hi, hstate, helf, hkind, hnew⟩
  · rw [hsame]
    exact h
  · have hloaded := h.loaded_of (List.getElem_mem hi) hstate
    rw [hnew]
    refine ⟨fun e he => ?_, ?_, h.nextId, ?_⟩
    · cases List.mem_or_eq_of_mem_set he with
      | inl hold => exact h.elf e hold
      | inr hset =>
        rw [hset]
        exact ⟨hkind, helf, .inr rfl⟩
    · show (t.entries.set i _).length ≤ driverMax
      rw [List.length_set]
      exact h.room
    · have hthis : (fun e : Info =>
          e.isLoaded && (e.fromElf && e.kind == .elf)) t.entries[i] = true := by
        unfold Info.isLoaded
        simp only [hloaded, helf, hkind]
        rfl
      have hpos : 0 < t.loadedElfCount :=
        List.countP_pos_iff.mpr ⟨_, List.getElem_mem hi, hthis⟩
      have hcount := h.counted
      have hset := @List.countP_set _
        (fun e : Info => e.isLoaded && (e.fromElf && e.kind == .elf))
        t.entries i { t.entries[i] with state := .unloaded } hi
      rw [if_pos hthis, if_neg (fun hno => nomatch hno)] at hset
      have hnz : 0 < t.elfCount := by
        rw [UInt64.lt_iff_toNat_lt, hcount]
        exact hpos
      show (if 0 < t.elfCount then t.elfCount - 1 else t.elfCount).toNat
        = (t.entries.set i _).countP _
      rw [if_pos hnz, hset, Nat.add_zero, UInt64.toNat_sub_of_le _ _ (by
        rw [UInt64.le_iff_toNat_le]
        exact hnz), hcount]
      rfl

theorem kept_step (h : Kept t) : Kept (t.step e) := by
  cases e with
  | load path a => exact kept_load h
  | unload nameOrPath => exact kept_unload h

theorem kept_steps (h : Kept t) (es : List Event) : Kept (t.steps es) := by
  induction es generalizing t with
  | nil => exact h
  | cons e es ih => exact ih (kept_step h)

end kept

-- ==== no two alike

section alike

variable {t : Table} {path nameOrPath : List UInt8} {a : Answers} {e : Event}

theorem copyName_of_short {size : Nat} {src : List UInt8}
    (h : src.length < size) : copyName size src = src :=
  List.take_of_length_le (by omega)

theorem not_unloaded {e : Info} (h : e.isLoaded = true) :
    e.state ≠ .unloaded := by
  intro hno
  unfold Info.isLoaded at h
  rw [hno] at h
  cases h

theorem Table.Reaches.path_ne_nil (h : t.Reaches path a) : path ≠ [] := by
  intro hnil
  have hslash := h.slash
  rw [hnil] at hslash
  cases hslash

theorem apart_set {entries : List Info} (h : entries.Pairwise Apart) (i : Nat)
    {slot : Info} (hslot : slot.isLoaded = false) :
    (entries.set i slot).Pairwise Apart := by
  rw [List.pairwise_iff_getElem] at h ⊢
  intro j k hj hk hjk hloaded hloaded'
  rw [List.getElem_set] at hloaded hloaded' ⊢
  rw [List.getElem_set]
  rw [List.length_set] at hj hk
  split at hloaded
  · rw [hslot] at hloaded
    cases hloaded
  · split at hloaded'
    · rw [hslot] at hloaded'
      cases hloaded'
    · next hij hik =>
      rw [if_neg hij, if_neg hik]
      exact h j k hj hk hjk hloaded hloaded'

theorem apart_load (h : t.entries.Pairwise Apart)
    (hshort : path.length < driverPathMax)
    (hadmits : t.Admits (.load path a)) :
    (t.loadPath path a).2.entries.Pairwise Apart := by
  rcases t.loadPath_cases path a with
    ⟨-, hsame⟩ | ⟨-, -, hsame⟩ | ⟨hreaches, -, slot, hslot, hnew⟩
  · rw [hsame]
    exact h
  · rw [hsame]
    exact h
  · rw [hnew]
    refine List.pairwise_append.mpr ⟨h, List.pairwise_singleton _ _, ?_⟩
    intro e he slot' hslot' hloaded _
    cases List.mem_singleton.mp hslot'
    rw [hslot.name, hslot.path, copyName_of_short hshort]
    exact ⟨(hadmits hreaches).2 e he hloaded,
      (Table.find_eq_none hreaches.path_ne_nil hreaches.newPath he
        (not_unloaded hloaded)).2⟩

theorem apart_unload (h : t.entries.Pairwise Apart) :
    (t.unload nameOrPath).2.entries.Pairwise Apart := by
  rcases t.unload_cases nameOrPath with hsame | ⟨i, hi, -, -, -, hnew⟩
  · rw [hsame]
    exact h
  · rw [hnew]
    exact apart_set h i rfl

theorem Table.loadPath_served_iff (hkept : Kept t)
    (hreaches : t.Reaches path a) :
    (t.loadPath path a).1 ≠ 0 ↔ t.entries.length < driverMax := by
  rcases t.loadPath_cases path a with
    ⟨hnot, -⟩ | ⟨-, hfull, hsame⟩ | ⟨-, hroom, slot, -, hnew⟩
  · exact absurd hreaches hnot
  · rw [hsame]
    exact ⟨fun h => absurd rfl h, fun h => absurd hfull (Nat.not_le_of_lt h)⟩
  · rw [hnew]
    exact ⟨fun _ => hroom, fun _ => hkept.nextId⟩

end alike

-- ==== the law

section run

variable {ops : List Op} {t : Table} {e : Event}

theorem kept_of_reached (h : Reached ops t) : Kept t := by
  obtain ⟨before, after, -, rfl⟩ := h
  exact kept_steps kept_cleared before

theorem Happens.reached (h : Happens ops t e) : Reached ops t := by
  obtain ⟨before, after, htrace, hstate⟩ := h
  exact ⟨before, e :: after, htrace, hstate⟩

theorem Happens.step_reached (h : Happens ops t e) : Reached ops (t.step e) := by
  obtain ⟨before, after, htrace, hstate⟩ := h
  refine ⟨before ++ [e], after, by rw [htrace, List.append_assoc]; rfl, ?_⟩
  unfold Table.steps at hstate ⊢
  rw [List.foldl_append, hstate]
  rfl

theorem Happens.load_short {path : List UInt8} {a : Answers}
    (h : Happens ops t (.load path a)) : path.length < driverPathMax := by
  obtain ⟨before, after, htrace, -⟩ := h
  have hmem : Event.load path a ∈ trace ops := by
    rw [htrace]
    exact List.mem_append_right _ List.mem_cons_self
  obtain ⟨op, -, hop⟩ := List.mem_flatMap.mp hmem
  exact Op.load_short hop

theorem apart_of_reached (hadmits : ∀ t e, Happens ops t e → t.Admits e)
    (h : Reached ops t) : t.entries.Pairwise Apart := by
  obtain ⟨before, after, htrace, rfl⟩ := h
  induction before using List.reverseRecOn generalizing after with
  | nil => exact List.Pairwise.nil
  | append_singleton before e ih =>
    have htrace' : trace ops = before ++ e :: after := by
      rw [htrace, List.append_assoc]
      rfl
    have hbefore := ih (e :: after) htrace'
    have hhappens : Happens ops (Table.cleared.steps before) e :=
      ⟨before, after, htrace', rfl⟩
    have hstep : Table.cleared.steps (before ++ [e])
        = (Table.cleared.steps before).step e := by
      unfold Table.steps
      rw [List.foldl_append]
      rfl
    rw [hstep]
    cases e with
    | load path a =>
      exact apart_load hbefore hhappens.load_short (hadmits _ _ hhappens)
    | unload nameOrPath => exact apart_unload hbefore

theorem admits_of_sound (hkept : Kept t) (hsound : (t.step e).Sound)
    (hserves : t.Serves e) : t.Admits e := by
  cases e with
  | unload nameOrPath => trivial
  | load path a =>
    intro hreaches
    have hroom := (Table.loadPath_served_iff hkept hreaches).mp
      (hserves hreaches)
    refine ⟨hroom, fun e he hloaded hname => ?_⟩
    rcases t.loadPath_cases path a with
      ⟨hnot, -⟩ | ⟨-, hfull, -⟩ | ⟨-, -, slot, hslot, hnew⟩
    · exact hnot hreaches
    · exact absurd hfull (Nat.not_le_of_lt hroom)
    · have hapart := hsound.apart
      have hentries : (t.step (.load path a)).entries = t.entries ++ [slot] := by
        show (t.loadPath path a).2.entries = _
        rw [hnew]
      rw [hentries] at hapart
      have hlast := (List.pairwise_append.mp hapart).2.2 e he slot
        (List.mem_singleton_self _) hloaded (by
          unfold Info.isLoaded
          rw [hslot.state]
          rfl)
      exact hlast.1 (hname.trans hslot.name.symm)

/-- In every run the table is sound throughout and serves every load,
exactly if every load that comes to it finds an entry that was never used,
and its name, cut off at the end of the field, not loaded yet. -/
theorem reusable_iff (ops : List Op) :
    ((∀ t, Reached ops t → t.Sound) ∧ ∀ t e, Happens ops t e → t.Serves e) ↔
      ∀ t e, Happens ops t e → t.Admits e := by
  constructor
  · intro ⟨hsound, hserves⟩ t e h
    exact admits_of_sound (kept_of_reached h.reached)
      (hsound _ h.step_reached) (hserves t e h)
  · intro hadmits
    refine ⟨fun t h => ⟨apart_of_reached hadmits h,
      (kept_of_reached h).counted⟩, fun t e h => ?_⟩
    cases e with
    | unload nameOrPath => trivial
    | load path a =>
      intro hreaches
      exact (Table.loadPath_served_iff (kept_of_reached h.reached)
        hreaches).mpr (hadmits _ _ h hreaches).1

/-- A memory with the text `/a.elf` at 4096. -/
def aElfMemory : UserMemory where
  inUserExecContext := false
  readable _ _ := true
  byte addr := (txt "/a.elf").getD (addr.toNat - 4096) 0

/-- One driver is loaded and unloaded 32 times, and then loaded again. -/
def loadedAgain : List Op :=
  (List.replicate 32 [Op.load true aElfMemory 4096 ⟨true, some 9, some 7, some 5⟩,
    Op.unload true aElfMemory 4096]).flatten
    ++ [Op.load true aElfMemory 4096 ⟨true, some 9, some 7, some 5⟩]

/-- There never is more than one driver loaded, and the last load fails
for lack of an entry. -/
theorem slots_used_up : ∃ ops : List Op,
    (∀ t, Reached ops t → t.loadedCount < driverMax) ∧
      ∃ t e, Happens ops t e ∧ ¬ t.Serves e := by
  have hend : trace loadedAgain = (trace loadedAgain).take 64
      ++ [.load (txt "/a.elf") ⟨true, some 9, some 7, some 5⟩] := by
    decide +kernel
  refine ⟨loadedAgain, fun t h => ?_, _, _, ⟨_, [], hend, rfl⟩, fun h => ?_⟩
  · obtain ⟨before, after, htrace, rfl⟩ := h
    have hall : ∀ i < 66, (Table.cleared.steps
        ((trace loadedAgain).take i)).loadedCount < driverMax := by
      decide +kernel
    have hlen : (trace loadedAgain).length = 65 := by decide +kernel
    have htake : (trace loadedAgain).take before.length = before := by
      rw [htrace, List.take_left]
    rw [htrace, List.length_append] at hlen
    rw [← htake]
    exact hall _ (by omega)
  · refine h ⟨rfl, by decide, by decide, ?_, ?_, ?_, rfl, rfl, rfl⟩ ?_
    all_goals decide +kernel

end run

end Clks.Driver
