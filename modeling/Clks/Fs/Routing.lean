/-
Where an operation on a path goes while a disk is mounted.

`clks_disk_path_in_mount` brings a path to its normalised form with the
slash in front, and the node table is looked up with the form without
it. Both have 192 bytes for that: a form of exactly 192 bytes fits the
second and not the first, and that path below the mount point is looked
up in the table. All other paths at the mount point or below it go to
the disk, or nowhere, but for the two device directories, whose names
come first.
-/
import Clks.Disk.Naming
import Clks.Fs.Vfs

namespace Clks.Fs

open Disk Bytes

-- ==== the mount point

/-- A normalised path is the mount point or below it. -/
def AtOrBelow (m p : List UInt8) : Prop :=
  m = [slash] ∨ p = m ∨ m ++ [slash] <+: p

instance (m p : List UInt8) : Decidable (AtOrBelow m p) :=
  inferInstanceAs (Decidable (_ ∨ _ ∨ _))

/-- A disk is mounted, at a path that `clks_disk_mount` gave. -/
def Mounted (s : FsState) : Prop :=
  s.disk.mounted = true ∧
    ∃ path, Path.normalizeAbsolute path pathMax = some s.disk.mountPath

private theorem drop_of_below {m p mp path : List UInt8}
    (hm : Path.normalForm mp = some m) (hp : Path.normalForm path = some p)
    (hpfx : m ++ [slash] <+: p) :
    ∃ cs, (∀ c ∈ cs, Path.Component c) ∧
      p.drop (m.length + 1) = Path.join cs := by
  obtain ⟨-, -, rfl⟩ := Path.normalForm_some hm
  obtain ⟨-, hdd, rfl⟩ := Path.normalForm_some hp
  obtain ⟨rest, hrest⟩ := hpfx
  have hcut : Path.join (Path.components path)
      = Path.join (Path.components mp) ++ slash :: rest := by
    rw [List.cons_append, List.cons_append] at hrest
    have := List.tail_eq_of_cons_eq hrest
    rw [← this, List.append_assoc, List.singleton_append]
  have hdrop : (slash :: Path.join (Path.components path)).drop
      ((slash :: Path.join (Path.components mp)).length + 1) = rest := by
    rw [hcut, List.length_cons, List.drop_succ_cons, ← List.drop_drop,
      List.drop_left]
    rfl
  have hne : Path.components path ≠ [] := by
    intro h
    rw [h] at hcut
    simp at hcut
  have hsplit : Path.components path
      = (Path.join (Path.components mp)).splitOn slash
        ++ rest.splitOn slash := by
    rw [← List.splitOn_append_cons_self, ← hcut,
      Path.splitOn_join hne fun c hc =>
        (Path.component_of_components hdd hc).no_slash]
  refine ⟨rest.splitOn slash, ?_, ?_⟩
  · intro c hc
    refine Path.component_of_components hdd ?_
    rw [hsplit]
    exact List.mem_append_right _ hc
  · rw [hdrop]
    exact (List.intercalate_splitOn slash).symm

private theorem normalizeRelative_join {cs : List (List UInt8)}
    (hcs : ∀ c ∈ cs, Path.Component c)
    (hfit : (Path.join cs).length < pathMax) :
    Path.normalizeRelative (Path.join cs) pathMax
      = some (Path.join cs) := by
  rw [Path.normalizeRelative_eq (by decide), if_pos,
    Path.components_join hcs]
  refine ⟨?_, ?_, ?_⟩
  · cases cs with
    | nil => exact fun h => nomatch h
    | cons c cs =>
      have hc := hcs c List.mem_cons_self
      intro hhead
      cases c with
      | nil => exact hc.ne_nil rfl
      | cons x c =>
        have hx : (Path.join ((x :: c) :: cs)).head? = some x := by
          by_cases hne : cs = []
          · rw [hne, Path.join_singleton]
            rfl
          · rw [Path.join_cons hne]
            rfl
        rw [hx] at hhead
        cases hhead
        exact hc.no_slash List.mem_cons_self
  · by_cases hne : cs = []
    · rw [hne]
      decide
    · rw [Path.splitOn_join hne fun c hc => (hcs c hc).no_slash]
      exact fun h => (hcs _ h).ne_dotdot rfl
  · rwa [Path.components_join hcs]

theorem pathInMount_iff {s : FsState} {path p : List UInt8}
    (hm : Mounted s) (hp : Path.normalForm path = some p)
    (hbelow : AtOrBelow s.disk.mountPath p) :
    pathInMount s path = decide (p.length < pathMax) := by
  obtain ⟨hmounted, mp, hmp⟩ := hm
  obtain ⟨m, hform⟩ : ∃ m, Path.normalForm mp = some m := by
    rw [Path.normalizeAbsolute_eq (by decide)] at hmp
    split_ifs at hmp with h
    exact ⟨_, if_pos ⟨h.1, h.2.1⟩⟩
  have hm : s.disk.mountPath = m := by
    rw [Path.normalizeAbsolute_normalForm (by decide) hform] at hmp
    split_ifs at hmp
    exact (Option.some.inj hmp).symm
  rw [hm] at hbelow
  unfold pathInMount pathToRelative
  rw [hmounted, Path.normalizeAbsolute_normalForm (by decide) hp, hm]
  by_cases hfit : p.length < pathMax
  swap
  · simp [hfit]
  rw [if_pos hfit, decide_eq_true hfit]
  dsimp only
  rw [if_neg (by decide)]
  -- What is left of the path is the join of some components.
  have hrel : ∀ n, (∃ cs, (∀ c ∈ cs, Path.Component c) ∧
      p.drop n = Path.join cs) →
      (Path.normalizeRelative (p.drop n) pathMax).isSome = true := by
    intro n hdrop
    obtain ⟨cs, hcs, hdrop⟩ := hdrop
    rw [hdrop, normalizeRelative_join hcs]
    · rfl
    · rw [← hdrop, List.length_drop]
      omega
  split_ifs with hroot htop hat hshort htake hslash
  · rfl
  · apply hrel 1
    obtain ⟨-, hdd, rfl⟩ := Path.normalForm_some hp
    exact ⟨_, fun c hc => Path.component_of_components hdd hc, rfl⟩
  · rfl
  all_goals rcases hbelow with hbelow | hbelow | hbelow
  all_goals first | exact absurd hbelow hroot | exact absurd hbelow hat | skip
  · have := hbelow.length_le
    rw [List.length_append] at this
    simp at this
    omega
  · obtain ⟨rest, rfl⟩ := hbelow
    rw [List.append_assoc, List.take_left] at htake
    exact absurd rfl htake
  · obtain ⟨rest, rfl⟩ := hbelow
    simp at hslash
  · exact hrel _ (drop_of_below hform hp hbelow)

-- ==== an operation

/-- An operation of the file system on a path. -/
inductive FsOp
  | stat (path : List UInt8)
  | countChildren (dirPath : List UInt8)
  | getChildName (dirPath : List UInt8) (index outSize : Nat)
  | readAll (path : List UInt8)
  | mkdir (path : List UInt8)
  | writeAll (path : List UInt8) (data : Option Mem) (size : Nat)
  | append (path : List UInt8) (data : Option Mem) (size : Nat)
  | remove (path : List UInt8)

/-- What an operation gives back: `none` for a failure. -/
inductive Outcome
  | info (r : Option (NodeType × Nat))
  | count (r : Option Nat)
  | bytes (r : Option (List UInt8))
  | done (r : Option Unit)
  deriving DecidableEq

namespace FsOp

/-- The path an operation is about. -/
def path : FsOp → List UInt8
  | stat path | readAll path | mkdir path | remove path => path
  | countChildren dirPath | getChildName dirPath _ _ => dirPath
  | writeAll path _ _ | append path _ _ => path

/-- The operations that answer for the device directories by
themselves. -/
def listsDevices : FsOp → Bool
  | stat _ | countChildren _ | getChildName _ _ _ => true
  | _ => false

/-- The operation of fs.c. -/
def run (kmalloc : Nat → Bool) : FsOp → FsState → Outcome × FsState
  | stat path, s => (Fs.stat path s).map .info id
  | countChildren dirPath, s => (Fs.countChildren dirPath s).map .count id
  | getChildName dirPath index outSize, s =>
    (Fs.getChildName dirPath index outSize s).map .bytes id
  | readAll path, s => (Fs.readAll path s).map .bytes id
  | mkdir path, s => (Fs.mkdir path s).map .done id
  | writeAll path data size, s =>
    (Fs.writeAll kmalloc path data size s).map .done id
  | append path data size, s =>
    (Fs.append kmalloc path data size s).map .done id
  | remove path, s => (Fs.remove path s).map .done id

/-- The operation of the disk driver. -/
def onDisk : FsOp → State → Outcome × State
  | stat path, s => (Disk.stat path s).map .info id
  | countChildren dirPath, s => (Disk.countChildren dirPath s).map .count id
  | getChildName dirPath index outSize, s =>
    (Disk.getChildName dirPath index outSize s).map .bytes id
  | readAll path, s => (Disk.readAll path s).map .bytes id
  | mkdir path, s => (Disk.mkdir path s).map .done id
  | writeAll path data size, s =>
    (Disk.writeAll path data size s).map .done id
  | append path data size, s => (Disk.append path data size s).map .done id
  | remove path, s => (Disk.remove path s).map .done id

/-- What an operation gives back when it refuses. -/
def refused : FsOp → Outcome
  | stat _ => .info none
  | countChildren _ => .count (some 0)
  | getChildName _ _ _ | readAll _ => .bytes none
  | mkdir _ | writeAll _ _ _ | append _ _ _ | remove _ => .done none

/-- The disk driver's answer, and its effect on the disk. -/
def answered (op : FsOp) (s : FsState) : Outcome × FsState :=
  ((op.onDisk s.disk).1, { s with disk := (op.onDisk s.disk).2 })

/-- An operation is answered by the disk driver, or fails with nothing
changed. -/
def Routed (kmalloc : Nat → Bool) (op : FsOp) (s : FsState) : Prop :=
  op.run kmalloc s = op.answered s ∨ op.run kmalloc s = (op.refused, s)

variable {kmalloc : Nat → Bool} {op : FsOp} {s : FsState}

theorem run_not_ready (h : s.ready = false) :
    op.run kmalloc s = (op.refused, s) := by
  cases op <;>
    simp [run, refused, Fs.stat, Fs.countChildren, Fs.getChildName,
      Fs.readAll, Fs.mkdir, Fs.writeAll, Fs.append, Fs.remove, h,
      Cmd.require_false_bind]

theorem run_inMount (hready : s.ready = true)
    (hdev : op.listsDevices = true → isDynamicDevDir op.path = false)
    (hin : pathInMount s op.path = true) :
    op.run kmalloc s = op.answered s := by
  cases op with
  | stat path =>
    have hd : isDynamicDevDir path = false := hdev rfl
    have hin : pathInMount s path = true := hin
    simp [run, answered, onDisk, Fs.stat, Fs.onDisk, hready, hd, hin,
      Cmd.require_true_bind]
  | countChildren dirPath =>
    have hd : isDynamicDevDir dirPath = false := hdev rfl
    have hin : pathInMount s dirPath = true := hin
    simp [run, answered, onDisk, Fs.countChildren, Fs.onDisk, hready, hd,
      hin]
  | getChildName dirPath index outSize =>
    have hd : isDynamicDevDir dirPath = false := hdev rfl
    have hin : pathInMount s dirPath = true := hin
    by_cases hz : outSize = 0
    · simp [run, answered, onDisk, Fs.getChildName, Disk.getChildName, hz,
        Cmd.require_false_bind]
    · simp [run, answered, onDisk, Fs.getChildName, Fs.onDisk, hready, hd,
        hin, hz, Cmd.require_true_bind]
  | readAll path =>
    have hin : pathInMount s path = true := hin
    simp [run, answered, onDisk, Fs.readAll, Fs.onDisk, hready, hin,
      Cmd.require_true_bind]
  | mkdir path =>
    have hin : pathInMount s path = true := hin
    simp [run, answered, onDisk, Fs.mkdir, Fs.onDisk, hready, hin,
      Cmd.require_true_bind]
  | writeAll path data size =>
    have hin : pathInMount s path = true := hin
    simp [run, answered, onDisk, Fs.writeAll, Fs.onDisk, hready, hin,
      Cmd.require_true_bind]
  | append path data size =>
    have hin : pathInMount s path = true := hin
    simp [run, answered, onDisk, Fs.append, Fs.onDisk, hready, hin,
      Cmd.require_true_bind]
  | remove path =>
    have hin : pathInMount s path = true := hin
    simp [run, answered, onDisk, Fs.remove, Fs.onDisk, hready, hin,
      Cmd.require_true_bind]

private theorem not_dev_of_too_long {path : List UInt8}
    (hlong : normalizeExternalPath path = none) :
    isDynamicDevDir path = false ∧ isDynamicDevFile path = false := by
  have hdirs : ∀ p ∈ [txt "/dev", txt "/dev/input"],
      normalizeExternalPath p ≠ none := by decide +kernel
  have hfiles : ∀ p ∈ devFiles.map (slash :: ·),
      normalizeExternalPath p ≠ none := by decide +kernel
  constructor
  · apply Bool.eq_false_iff.mpr
    intro h
    refine hdirs path ?_ hlong
    simpa [isDynamicDevDir] using h
  · apply Bool.eq_false_iff.mpr
    intro h
    exact hfiles path (List.contains_iff_mem.mp h) hlong

theorem run_too_long (hin : pathInMount s op.path = false)
    (hlong : normalizeExternalPath op.path = none) :
    op.run kmalloc s = (op.refused, s) := by
  by_cases hready : s.ready = true
  swap
  · exact run_not_ready (by simpa using hready)
  obtain ⟨hdir, hfile⟩ := not_dev_of_too_long hlong
  have hfind : nodeAt s (findNodeByExternal s op.path) = none := by
    simp [findNodeByExternal, hlong, nodeAt]
  have hwrite : writablePath op.path = Cmd.fail := by
    simp [writablePath, hlong]
  cases op with
  | stat path =>
    have hin : pathInMount s path = false := hin
    simp only [FsOp.path] at hdir hfile hfind
    simp [run, refused, Fs.stat, hready, hdir, hfile, hfind, hin,
      Cmd.require_true_bind]
  | countChildren dirPath =>
    have hin : pathInMount s dirPath = false := hin
    simp only [FsOp.path] at hdir hfind
    simp [run, refused, Fs.countChildren, hready, hdir, hfind, hin]
  | getChildName dirPath index outSize =>
    have hin : pathInMount s dirPath = false := hin
    simp only [FsOp.path] at hdir hfind
    by_cases hz : outSize = 0
    · simp [run, refused, Fs.getChildName, hz, Cmd.require_false_bind]
    · simp [run, refused, Fs.getChildName, hready, hdir, hfind, hin, hz,
        Cmd.require_true_bind]
  | readAll path =>
    have hin : pathInMount s path = false := hin
    simp only [FsOp.path] at hfind
    simp [run, refused, Fs.readAll, hready, hfind, hin,
      Cmd.require_true_bind]
  | mkdir path =>
    have hin : pathInMount s path = false := hin
    simp only [FsOp.path] at hwrite
    simp [run, refused, Fs.mkdir, hready, hwrite, hin,
      Cmd.require_true_bind]
  | writeAll path data size =>
    have hin : pathInMount s path = false := hin
    simp only [FsOp.path] at hwrite
    simp [run, refused, Fs.writeAll, hready, hwrite, hin,
      Cmd.require_true_bind]
  | append path data size =>
    have hin : pathInMount s path = false := hin
    simp only [FsOp.path] at hwrite
    cases hdata : (!(decide (0 < size) && data.isNone)) with
    | true =>
      simp [run, refused, Fs.append, hready, hwrite, hin, hdata,
        Cmd.require_true_bind]
    | false =>
      simp [run, refused, Fs.append, hready, hin, hdata,
        Cmd.require_true_bind, Cmd.require_false_bind]
  | remove path =>
    have hin : pathInMount s path = false := hin
    simp only [FsOp.path] at hwrite
    simp [run, refused, Fs.remove, hready, hwrite, hin,
      Cmd.require_true_bind]

/-- Below the mount point the disk driver answers, or nothing happens,
whatever is in the node table: for every path but those of the two device
directories and those whose form takes 192 bytes. -/
theorem run_atOrBelow (kmalloc : Nat → Bool) (op : FsOp) (s : FsState)
    {p : List UInt8} (hm : Mounted s)
    (hp : Path.normalForm op.path = some p)
    (hbelow : AtOrBelow s.disk.mountPath p) (hlen : p.length ≠ fsPathMax)
    (hdev : op.listsDevices = true → isDynamicDevDir op.path = false) :
    op.run kmalloc s
      = if s.ready ∧ p.length < pathMax then op.answered s
        else (op.refused, s) := by
  have hin := pathInMount_iff hm hp hbelow
  by_cases hready : s.ready = true
  · by_cases hfit : p.length < pathMax
    · rw [if_pos ⟨hready, hfit⟩]
      exact run_inMount hready hdev (by rw [hin, decide_eq_true hfit])
    · rw [if_neg (fun h => hfit h.2)]
      apply run_too_long
      · rw [hin, decide_eq_false hfit]
      · unfold normalizeExternalPath
        rw [Path.normalizeExternalInternal_normalForm (by decide) hp]
        have hlen : p.length ≠ 192 := hlen
        have hfit : ¬p.length < 192 := hfit
        exact if_neg (show ¬p.length ≤ 192 by omega)
  · rw [if_neg (fun h => hready h.1)]
    exact run_not_ready (by simpa using hready)

-- ==== the two kinds left out

/-- The file system with nothing but the root node, and a formatted disk
mounted at a path. -/
def withDisk (mountPath : List UInt8) : FsState where
  ready := true
  nodes :=
    [{ used := true, type := .dir, parent := 0, data := [], path := [] }]
  disk := (Disk.mount mountPath freshDisk).2

/-- `/temp/disk/` and a name of 181 bytes, 192 bytes in all. -/
def edgePath : List UInt8 :=
  txt "/temp/disk/" ++ List.replicate 181 (chr 'a')

theorem run_atOrBelow_home :
    run (fun _ => true)
        (.writeAll (txt "/home//./a.txt") (some fun _ => 0) 4)
        (withDisk (txt "/home"))
      = answered (.writeAll (txt "/home//./a.txt") (some fun _ => 0) 4)
        (withDisk (txt "/home")) := by
  have hm : Mounted (withDisk (txt "/home")) :=
    ⟨by decide +kernel, txt "/home", by decide +kernel⟩
  have hp : Path.normalForm (txt "/home//./a.txt")
      = some (txt "/home/a.txt") := by decide +kernel
  rw [run_atOrBelow (fun _ => true)
    (.writeAll (txt "/home//./a.txt") (some fun _ => 0) 4)
    (withDisk (txt "/home")) hm hp (by decide +kernel)
    (by decide +kernel) (fun h => nomatch h)]
  exact if_pos ⟨rfl, by decide +kernel⟩

/-- On a disk mounted at `/` the device directory is answered for by the
device table; and a directory whose path takes 192 bytes is made in the
node table, where the disk refuses. -/
theorem edges_not_routed :
    ¬ (∀ (kmalloc : Nat → Bool) (op : FsOp) (s : FsState) (p : List UInt8),
      Mounted s → Path.normalForm op.path = some p →
      AtOrBelow s.disk.mountPath p → op.Routed kmalloc s) ∧
    ¬ Routed (fun _ => true) (.stat (txt "/dev")) (withDisk [slash]) ∧
    ¬ Routed (fun _ => true) (.mkdir edgePath)
      (withDisk (txt "/temp/disk")) := by
  have hdev : ¬ Routed (fun _ => true) (.stat (txt "/dev"))
      (withDisk [slash]) := by
    intro h
    have hrun : (run (fun _ => true) (.stat (txt "/dev"))
        (withDisk [slash])).1 = .info (some (.dir, 0)) := by decide +kernel
    have hdisk : (answered (.stat (txt "/dev")) (withDisk [slash])).1
        = .info none := by decide +kernel
    cases h with
    | inl h => rw [h, hdisk] at hrun; cases hrun
    | inr h => rw [h] at hrun; cases hrun
  have hedge : ¬ Routed (fun _ => true) (.mkdir edgePath)
      (withDisk (txt "/temp/disk")) := by
    intro h
    have hrun : (run (fun _ => true) (.mkdir edgePath)
        (withDisk (txt "/temp/disk"))).1 = .done (some ()) := by
      decide +kernel
    have hdisk : (answered (.mkdir edgePath)
        (withDisk (txt "/temp/disk"))).1 = .done none := by decide +kernel
    cases h with
    | inl h => rw [h, hdisk] at hrun; cases hrun
    | inr h => rw [h] at hrun; cases hrun
  refine ⟨fun h => hdev ?_, hdev, hedge⟩
  exact h _ _ _ (txt "/dev")
    ⟨by decide +kernel, txt "/", by decide +kernel⟩ (by decide +kernel)
    (by decide +kernel)

end FsOp

end Clks.Fs
