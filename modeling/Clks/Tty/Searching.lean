/-
Searching the scrollback.

A search goes through the lines from behind the one that was found last, in
one direction and around the ends, and stops at the first that contains the
query (`searchFind_found`, `searchFind_none`). So the key that searches on goes
through the lines as a search of places on a circle does (`Cyclic`), and as
many times as there are lines that contain the query it scrolls to each of
them once.
-/
import Clks.Lib.Cyclic
import Clks.Tty.Scrolled

namespace Clks.Tty

open Guarded

variable {g : Geometry} {t : Nat} {c c' : Console}

-- ==== the query

/-- The query that was entered. -/
def Terminal.query (y : Terminal) : List UInt8 :=
  (List.range y.searchLen).map y.searchQuery

/-- A line contains a query, up to the case of the letters. -/
def Contains (query : List UInt8) (line : Line) : Prop :=
  (query.map fun ch => asciiTolower ch.toUInt32) <:+:
    line.map fun cell => asciiTolower cell.searched

instance (query : List UInt8) (line : Line) : Decidable (Contains query line) :=
  inferInstanceAs (Decidable (_ <:+: _))

/-- A line of the scrollback. -/
def Console.line (t : Nat) (c : Console) (i : Nat) : Line :=
  (List.range c.cols).map ((c.ring t).lines ((c.ring t).slot i))

/-- Does it contain the query? -/
def Console.hit (t : Nat) (c : Console) (i : Nat) : Bool :=
  decide (Contains (c.ttys t).query (c.line t i))

theorem history_eq (c : Console) :
    c.history t = (List.range (c.ring t).count).map (c.line t) := rfl

theorem contains_iff {n cols : Nat} (query : Nat → UInt8) (line : Nat → Cell) :
    Contains ((List.range n).map query) ((List.range cols).map line) ↔
      ∃ k, n + k ≤ cols ∧ ∀ i < n,
        asciiTolower (line (k + i)).searched = asciiTolower (query i).toUInt32 := by
  unfold Contains
  rw [List.infix_iff_getElem?, List.map_map, List.map_map]
  simp only [List.length_map, List.length_range, List.getElem_map,
    List.getElem_range, Function.comp_apply]
  refine exists_congr fun k => and_congr_right fun hk => ?_
  refine forall_congr' fun i => forall_congr' fun hi => ?_
  rw [List.getElem?_eq_getElem (by rw [List.length_map, List.length_range]; omega),
    Option.some_inj, List.getElem_map, List.getElem_range, Nat.add_comm i k]
  rfl

-- ==== a line

theorem scrollbackAt_apply (ht : t < ttyCount) {slot col : Nat}
    (hslot : slot < scrollbackLines) (hcol : col < maxCols) (c : Console) :
    scrollbackAt t slot col c = some ((c.ttys t).scrollback slot col, c) := by
  unfold scrollbackAt
  rw [check_pos ⟨ht, hslot, hcol⟩]
  rfl

theorem queryAt_apply (ht : t < ttyCount) {i : Nat} (hi : i < searchMax)
    (c : Console) : queryAt t i c = some ((c.ttys t).searchQuery i, c) := by
  unfold queryAt
  rw [check_pos ⟨ht, hi⟩]
  rfl

theorem docCharAt_apply (hc : c.Fits g) (ht : t < ttyCount) {i col : Nat}
    (hi : i < (c.ring t).count) (hcol : col < c.cols) :
    docCharAt t i col c
      = some (((c.ring t).lines ((c.ring t).slot i) col).searched, c) := by
  have hin : ¬ (ttyCount ≤ t ∨ c.cols ≤ col) := by omega
  have hcols := hc.cols_le
  have hcount : i < (c.ttys t).scrollbackCount := hi
  have hstate : (state : Act Console) c = some (c, c) := rfl
  unfold docCharAt
  rw [bind_some hstate, if_neg hin, bind_some (terminal_apply ht c), if_pos hcount,
    bind_some (scrollbackAt_apply ht ((hc.ttys t).slot hi) (by omega) c)]
  rfl

theorem docRowContainsQuery_apply (hc : c.Fits g) (ht : t < ttyCount) {i : Nat}
    (hi : i < (c.ring t).count) (hquery : (c.ttys t).searchLen ≠ 0) :
    docRowContainsQuery t i c = some (c.hit t i, c) := by
  have hpos : 0 < c.cols := by
    rw [hc.cols]
    exact g.cols_pos
  have hlen := (hc.ttys t).query
  have hin : ¬ (ttyCount ≤ t ∨ c.cols = 0) := by omega
  have hstate : (state : Act Console) c = some (c, c) := rfl
  unfold docRowContainsQuery
  rw [bind_some hstate, if_neg hin, bind_some (terminal_apply ht c)]
  by_cases hwide : c.cols < (c.ttys t).searchLen
  · -- No line is as long as the query.
    have hnone : c.hit t i = false := by
      refine decide_eq_false fun hcontains => ?_
      obtain ⟨k, hk, -⟩ := (contains_iff _ _).mp hcontains
      omega
    rw [if_pos (.inr (.inr hwide)), hnone]
    rfl
  · rw [if_neg (by omega)]
    let same (col q : Nat) : Bool :=
      asciiTolower ((c.ring t).lines ((c.ring t).slot i) (col + q)).searched
        != asciiTolower ((c.ttys t).searchQuery q).toUInt32
    have hinner (col : Nat) (hcol : col < c.cols + 1 - (c.ttys t).searchLen) :
        (do
          let differs ← findRange 0 (c.ttys t).searchLen fun q => do
            let left ← docCharAt t i (col + q)
            let right ← queryAt t q
            return asciiTolower left != asciiTolower right.toUInt32
          return differs.isNone : Act Bool) c
          = some (((List.range' 0 (c.ttys t).searchLen).find? (same col)).isNone, c) := by
      refine bind_some (findRange_apply fun q _ hq => ?_)
      rw [bind_some (docCharAt_apply hc ht hi (by omega)),
        bind_some (queryAt_apply ht (by omega) c)]
      rfl
    rw [bind_some (findRange_apply fun col _ hcol => hinner col hcol)]
    show some (_, c) = some (_, c)
    congr 2
    unfold Console.hit
    rw [Bool.eq_iff_iff, decide_eq_true_iff, List.find?_isSome]
    refine Iff.trans ?_ (contains_iff _ _).symm
    constructor
    · intro hfound
      obtain ⟨col, hcol, hsame⟩ := hfound
      rw [List.mem_range'_1] at hcol
      rw [Option.isNone_iff_eq_none, List.find?_eq_none] at hsame
      refine ⟨col, by omega, fun q hq => ?_⟩
      have hq' := hsame q (List.mem_range'_1.mpr ⟨Nat.zero_le q, by omega⟩)
      exact not_not.mp fun hne => hq' (bne_iff_ne.mpr hne)
    · intro hcontains
      obtain ⟨col, hcol, hsame⟩ := hcontains
      refine ⟨col, List.mem_range'_1.mpr ⟨Nat.zero_le col, by omega⟩, ?_⟩
      rw [Option.isNone_iff_eq_none, List.find?_eq_none]
      intro q hq hne
      rw [List.mem_range'_1] at hq
      exact bne_iff_ne.mp hne (hsame q (by omega))

-- ==== the search

theorem settled_ttys (h : c'.settled = c.settled) (t : Nat) :
    (c'.ttys t).settled = (c.ttys t).settled :=
  congrFun (congrArg (fun v => v.2.2.2.2.2) h) t

theorem settled_same {γ : Type} {p : Terminal → γ} (h : c'.settled = c.settled)
    (hp : ∀ y : Terminal, p y.settled = p y) (t : Nat) :
    p (c'.ttys t) = p (c.ttys t) := by
  rw [← hp, settled_ttys h, hp]

theorem settled_ring (h : c'.settled = c.settled) (t : Nat) : c'.ring t = c.ring t :=
  settled_same (p := Terminal.ring) h (fun _ => rfl) t

theorem settled_line (h : c'.settled = c.settled) (t : Nat) : c'.line t = c.line t := by
  have hcols : c'.cols = c.cols := congrArg (fun v => v.2.2.2.1) h
  funext i
  unfold Console.line
  rw [hcols, settled_ring h]

theorem settled_hit (h : c'.settled = c.settled) (t : Nat) : c'.hit t = c.hit t := by
  have hquery : (c'.ttys t).query = (c.ttys t).query :=
    settled_same (p := Terminal.query) h (fun _ => rfl) t
  funext i
  unfold Console.hit
  rw [settled_line h, hquery]

theorem settled_setTty {y z : Terminal} (h : c'.settled = c.settled)
    (hy : y.settled = z.settled) :
    (c'.setTty t y).settled = (c.setTty t z).settled := by
  have httys : (fun u => (Function.update c'.ttys t y u).settled)
      = fun u => (Function.update c.ttys t z u).settled := by
    funext u
    by_cases hu : u = t
    · rw [hu, Function.update_self, Function.update_self, hy]
    · rw [Function.update_of_ne hu, Function.update_of_ne hu, settled_ttys h]
  unfold Console.settled at h ⊢
  simp only [Prod.mk.injEq] at h
  obtain ⟨hready, hactive, hrows, hcols, hdisplay, -⟩ := h
  unfold Console.setTty
  dsimp only
  rw [hready, hactive, hrows, hcols, hdisplay, httys]

/-- The line from which a search goes on. -/
def Terminal.searchFrom (y : Terminal) : Nat :=
  if y.searchHasMatch ∧ y.searchMatchDoc < y.scrollbackCount then y.searchMatchDoc
  else y.scrollbackCount - min y.scrollbackOffset y.scrollbackCount

theorem searchStart_apply (ht : t < ttyCount) (c : Console) :
    ∃ c', searchStart t c = some ((c.ttys t).searchFrom, c') := by
  unfold searchStart Terminal.searchFrom
  rw [bind_some (terminal_apply ht c)]
  split
  · exact ⟨c, rfl⟩
  · exact ⟨_, bind_some (clampedOffset_apply ht c)⟩

/-- How far a search goes from a line to the next one. -/
def stride (reverse : Bool) (n : Nat) : Nat := if reverse then n - 1 else 1

theorem coprime_stride (reverse : Bool) {n : Nat} (hn : 0 < n) :
    Nat.Coprime n (stride reverse n) := by
  cases reverse with
  | false => exact Nat.coprime_one_right n
  | true => exact Cyclic.coprime_back hn

theorem candidates_eq (reverse : Bool) (start n : Nat) :
    (List.range' 1 n).map (searchCandidate reverse start n)
      = Cyclic.steps n (stride reverse n) start := by
  unfold Cyclic.steps
  rw [List.range'_eq_map_range, List.map_map]
  refine List.map_congr_left fun i hi => ?_
  rw [List.mem_range] at hi
  rw [Function.comp_apply, Nat.add_comm 1 i]
  unfold searchCandidate stride
  cases reverse with
  | false =>
    rw [if_neg Bool.false_ne_true, if_neg Bool.false_ne_true, Nat.one_mul]
  | true =>
    rw [if_pos rfl, if_pos rfl]
    exact Cyclic.step_back start hi

/-- The line that a search finds. -/
def Console.next (t : Nat) (reverse : Bool) (c : Console) : Option Nat :=
  Cyclic.next (Cyclic.steps (c.ring t).count (stride reverse (c.ring t).count))
    (c.hit t) (c.ttys t).searchFrom

/-- A terminal that is scrolled to a line that was found. -/
def Terminal.foundAt (y : Terminal) (m : Nat) : Terminal :=
  { y with
    searchHasMatch := true
    searchNotFound := false
    searchMatchDoc := m
    scrollbackOffset := y.scrollbackCount - m }

theorem searchFind_apply (reverse : Bool) (hc : c.Fits g) (ht : t < ttyCount)
    (hquery : (c.ttys t).searchLen ≠ 0) :
    ∃ c', searchFind t reverse c = some ((c.next t reverse).isSome, c') ∧
      ∀ m, c.next t reverse = some m →
        c'.settled = (c.setTty t ((c.ttys t).foundAt m)).settled := by
  unfold searchFind
  rw [if_neg (by omega), bind_some (terminal_apply ht c)]
  by_cases hcount : (c.ttys t).scrollbackCount = 0
  · have hnone : c.next t reverse = none := by
      unfold Console.next
      have hcount' : (c.ring t).count = 0 := hcount
      rw [hcount']
      rfl
    rw [if_pos (.inr hcount), hnone]
    exact ⟨c, rfl, fun m hm => nomatch hm⟩
  · rw [if_neg (by omega)]
    obtain ⟨c1, hstart⟩ := searchStart_apply ht c
    have hsettled : c1.settled = c.settled := drawing_searchStart t _ _ _ hstart
    have hfits : c1.Fits g := (keeps_searchStart ht).runs hc hstart
    have hcount1 : (c1.ring t).count = (c.ttys t).scrollbackCount := by
      rw [settled_ring hsettled]
      rfl
    have hquery1 : (c1.ttys t).searchLen ≠ 0 := by
      rwa [settled_same (p := Terminal.searchLen) hsettled fun _ => rfl]
    have hmod (i : Nat) : searchCandidate reverse (c.ttys t).searchFrom
        (c.ttys t).scrollbackCount i < (c1.ring t).count := by
      rw [hcount1]
      unfold searchCandidate
      split <;> exact Nat.mod_lt _ (Nat.pos_of_ne_zero hcount)
    have hloop : findRange 1 ((c.ttys t).scrollbackCount + 1) (fun i =>
        docRowContainsQuery t (searchCandidate reverse (c.ttys t).searchFrom
          (c.ttys t).scrollbackCount i)) c1
        = some ((List.range' 1 (c.ttys t).scrollbackCount).find? fun i =>
            c.hit t (searchCandidate reverse (c.ttys t).searchFrom
              (c.ttys t).scrollbackCount i), c1) := by
      refine findRange_apply fun i _ _ => ?_
      rw [← settled_hit hsettled t]
      exact docRowContainsQuery_apply hfits ht (hmod i) hquery1
    have hnext : c.next t reverse
        = ((List.range' 1 (c.ttys t).scrollbackCount).find? fun i =>
            c.hit t (searchCandidate reverse (c.ttys t).searchFrom
              (c.ttys t).scrollbackCount i)).map
          (searchCandidate reverse (c.ttys t).searchFrom
            (c.ttys t).scrollbackCount) := by
      unfold Console.next Cyclic.next
      rw [← candidates_eq, List.find?_map]
      rfl
    rw [bind_some hstart, bind_some hloop, hnext]
    cases (List.range' 1 (c.ttys t).scrollbackCount).find? fun i =>
        c.hit t (searchCandidate reverse (c.ttys t).searchFrom
          (c.ttys t).scrollbackCount i) with
    | none =>
      exact ⟨_, bind_some (modifyTty_apply ht), fun m hm => nomatch hm⟩
    | some i =>
      refine ⟨_, (bind_some (modifyTty_apply ht)).trans
        (bind_some ((congrFun (when_pos ht) _).trans (modifyTty_apply ht))), ?_⟩
      intro m hm
      obtain rfl := Option.some.inj hm
      have hfound (m : Nat) : ((c1.ttys t).foundAt m).settled
          = ((c.ttys t).foundAt m).settled :=
        settled_same (p := fun y => (y.foundAt m).settled) hsettled (fun _ => rfl) t
      rw [setTty_setTty, setTty_self]
      exact settled_setTty hsettled (hfound _)

theorem next_isSome_iff (reverse : Bool) (c : Console) :
    (c.next t reverse).isSome = true ↔
      ∃ line ∈ c.history t, Contains (c.ttys t).query line := by
  have hhits : (∃ line ∈ c.history t, Contains (c.ttys t).query line) ↔
      ∃ i ∈ List.range (c.ring t).count, c.hit t i = true := by
    rw [history_eq]
    simp only [List.mem_map, exists_exists_and_eq_and, Console.hit,
      decide_eq_true_iff]
  rw [hhits]
  unfold Console.next Cyclic.next
  rw [List.find?_isSome]
  rcases Nat.eq_zero_or_pos (c.ring t).count with hcount | hcount
  · rw [hcount]
    rfl
  · have hperm := Cyclic.steps_perm hcount (coprime_stride reverse hcount)
      (c.ttys t).searchFrom
    exact exists_congr fun i => and_congr_left fun _ => hperm.mem_iff

-- ==== the keys

/-- The keys that search on. -/
def findKey (reverse : Bool) : UInt8 := if reverse then 0x4E else 0x6E

/-- A key again and again, and the lines that are at the top of the screen
behind each time. -/
def presses (t : Nat) (ch : UInt8) : Nat → Act (List Nat)
  | 0 => return []
  | k + 1 => do
    let _ ← scrollbackHandleKey ch
    let y ← terminal t
    let lines ← presses t ch k
    return (y.scrollbackCount - y.scrollbackOffset) :: lines

/-- The terminal that is shown is scrolled back, and there is a query that is
not edited any more. -/
structure Browsing (t : Nat) (c : Console) : Prop where
  ready : c.isReady = true
  shown : c.activeIndex = t
  terminal : t ≠ desktopIndex
  entered : (c.ttys t).searchEditing = false
  query : (c.ttys t).searchLen ≠ 0
  scrolled : (c.ttys t).scrollbackIsActive

theorem scrollbackHandleKey_find (reverse : Bool) (hc : c.Fits g)
    (h : Browsing t c) :
    ∃ c', scrollbackHandleKey (findKey reverse) c = some (true, c') ∧ c'.Fits g ∧
      ∀ m, c.next t reverse = some m →
        c'.settled = (c.setTty t ((c.ttys t).foundAt m)).settled := by
  have ht : t < ttyCount := h.shown ▸ hc.active
  obtain ⟨c1, hfind, hfound⟩ := searchFind_apply reverse hc ht h.query
  have hfits1 : c1.Fits g := (keeps_searchFind t reverse).runs hc hfind
  obtain ⟨a, c2, hredraw, hfits2⟩ := keeps_redraw c1 hfits1
  refine ⟨c2, ?_, hfits2, fun m hm => ?_⟩
  · have hstate : (state : Act Console) c = some (c, c) := rfl
    have hlen : 0 < (c.ttys t).searchLen := Nat.pos_of_ne_zero h.query
    have hsearches : findNext t (findKey reverse = 0x4E) c = some ((), c1) := by
      have hreverse : decide (findKey reverse = 0x4E) = reverse := by
        cases reverse <;> rfl
      unfold findNext
      rw [hreverse]
      exact bind_some hfind
    have hslash : findKey reverse ≠ 0x2F := by cases reverse <;> decide
    have hfindKey : findKey reverse = 0x6E ∨ findKey reverse = 0x4E := by
      cases reverse
      · exact .inl rfl
      · exact .inr rfl
    unfold scrollbackHandleKey
    rw [bind_some hstate, h.shown, if_neg (by rw [h.ready]; exact fun hor => hor.elim nofun h.terminal),
      bind_some (terminal_apply ht c), if_neg (by rw [h.entered]; decide),
      if_pos h.scrolled]
    unfold scrollKey
    rw [if_neg hslash, if_pos hfindKey, bind_some (terminal_apply ht c),
      when_pos hlen]
    exact bind_some ((bind_some hsearches).trans hredraw)
  · rw [drawing_redraw _ _ _ hredraw]
    exact hfound m hm

theorem Browsing.found {m : Nat} (h : Browsing t c) (hm : m < (c.ring t).count)
    (hsettled : c'.settled = (c.setTty t ((c.ttys t).foundAt m)).settled) :
    Browsing t c' ∧ c'.ring t = c.ring t ∧ c'.hit t = c.hit t ∧
      (c'.ttys t).searchFrom = m ∧
      (c'.ttys t).scrollbackCount - (c'.ttys t).scrollbackOffset = m := by
  have hself := setTty_self c t ((c.ttys t).foundAt m)
  have hsame {γ : Type} (p : Terminal → γ) (hp : ∀ y : Terminal, p y.settled = p y) :
      p (c'.ttys t) = p ((c.ttys t).foundAt m) := by
    rw [settled_same hsettled hp, hself]
  have hring : c'.ring t = c.ring t := hsame Terminal.ring fun _ => rfl
  have hhit : c'.hit t = c.hit t := by
    rw [settled_hit hsettled]
    funext i
    unfold Console.hit Console.line Console.ring
    rw [hself]
    rfl
  have hcount : (c'.ttys t).scrollbackCount = (c.ttys t).scrollbackCount :=
    hsame Terminal.scrollbackCount fun _ => rfl
  have hm' : m < (c.ttys t).scrollbackCount := hm
  have hoffset : min (c'.ttys t).scrollbackOffset (c'.ttys t).scrollbackCount
      = min ((c.ttys t).scrollbackCount - m) (c.ttys t).scrollbackCount :=
    hsame (fun y => min y.scrollbackOffset y.scrollbackCount) fun y => by
      unfold Terminal.settled
      dsimp only
      rw [Nat.min_assoc, Nat.min_self]
  have hmatch : (c'.ttys t).searchHasMatch = true :=
    hsame Terminal.searchHasMatch fun _ => rfl
  have hdoc : (c'.ttys t).searchMatchDoc = m :=
    hsame Terminal.searchMatchDoc fun _ => rfl
  rw [hcount] at hoffset
  have hscrolled : 0 < (c'.ttys t).scrollbackOffset := by omega
  refine ⟨⟨?_, ?_, h.terminal, ?_, ?_, hscrolled⟩, hring, hhit, ?_, by omega⟩
  · exact (congrArg (fun v => v.1) hsettled).trans h.ready
  · exact (congrArg (fun v => v.2.1) hsettled).trans h.shown
  · exact (hsame Terminal.searchEditing fun _ => rfl).trans h.entered
  · rw [hsame Terminal.searchLen fun _ => rfl]
    exact h.query
  · unfold Terminal.searchFrom
    rw [if_pos ⟨hmatch, by omega⟩, hdoc]

theorem presses_eq (reverse : Bool) {n : Nat} {p : Nat → Bool} (hn : 0 < n)
    (hsome : ∀ s, (Cyclic.next (Cyclic.steps n (stride reverse n)) p s).isSome = true)
    (hc : c.Fits g) (h : Browsing t c) (hcount : (c.ring t).count = n)
    (hhit : c.hit t = p) (k : Nat) :
    ∃ c', presses t (findKey reverse) k c
      = some (Cyclic.visits (Cyclic.steps n (stride reverse n)) p k
          (c.ttys t).searchFrom, c') := by
  induction k generalizing c with
  | zero => exact ⟨c, rfl⟩
  | succ k ih =>
    obtain ⟨m, hm⟩ := Option.isSome_iff_exists.mp (hsome (c.ttys t).searchFrom)
    have hnext : c.next t reverse = some m := by
      unfold Console.next
      rw [hcount, hhit]
      exact hm
    have hlt : m < (c.ring t).count := by
      rw [hcount]
      obtain ⟨i, -, rfl⟩ := List.mem_map.mp (List.mem_of_find?_eq_some hm)
      exact Nat.mod_lt _ hn
    obtain ⟨c1, hpress, hfits, hfound⟩ := scrollbackHandleKey_find reverse hc h
    obtain ⟨hbrowsing, hring, hhit1, hfrom, htop⟩ := h.found hlt (hfound m hnext)
    have ht : t < ttyCount := h.shown ▸ hc.active
    obtain ⟨c', hrest⟩ := ih hfits hbrowsing (hring ▸ hcount) (hhit1.trans hhit)
    refine ⟨c', ?_⟩
    unfold presses Cyclic.visits
    rw [bind_some hpress, bind_some (terminal_apply ht c1), bind_some hrest, hm, hfrom,
      htop]
    rfl

theorem keeps_presses (ht : t < ttyCount) (ch : UInt8) (k : Nat) :
    Keeps (Console.Fits g) (presses t ch k) := by
  induction k with
  | zero => exact .pure []
  | succ k ih =>
    refine .bind (keeps_scrollbackHandleKey ch) fun _ => ?_
    exact keeps_terminalBind ht fun y _ => .bind ih fun _ => .pure _

theorem length_presses {ch : UInt8} {k : Nat} {lines : List Nat}
    (h : presses t ch k c = some (lines, c')) : lines.length = k := by
  induction k generalizing c lines with
  | zero =>
    cases h
    rfl
  | succ k ih =>
    obtain ⟨_, c1, -, h⟩ := bind_some_inv h
    obtain ⟨y, c2, -, h⟩ := bind_some_inv h
    obtain ⟨rest, c3, hrest, h⟩ := bind_some_inv h
    cases h
    rw [List.length_cons, ih hrest]

/-- The lines that contain the query. -/
def Console.matching (t : Nat) (c : Console) : List Nat :=
  (List.range (c.ring t).count).filter (c.hit t)

theorem Browsing.cycle (reverse : Bool) (hc : c.Fits g) (h : Browsing t c)
    (k : Nat) :
    ∃ lines c', presses t (findKey reverse) (k + (c.matching t).length) c
        = some (lines, c') ∧ (lines.drop k).Perm (c.matching t) := by
  have ht : t < ttyCount := h.shown ▸ hc.active
  by_cases hnone : c.matching t = []
  · obtain ⟨lines, c', hrun, -⟩ := keeps_presses ht (findKey reverse) k c hc
    refine ⟨lines, c', ?_, ?_⟩
    · rw [hnone]
      exact hrun
    · rw [hnone, List.drop_eq_nil_of_le (Nat.le_of_eq (length_presses hrun))]
  · obtain ⟨m, hm⟩ := List.exists_mem_of_ne_nil _ hnone
    obtain ⟨hrange, hhit⟩ := List.mem_filter.mp hm
    have hpos : 0 < (c.ring t).count :=
      Nat.zero_lt_of_lt (List.mem_range.mp hrange)
    have hcoprime := coprime_stride reverse hpos
    have hsome (s : Nat) : (Cyclic.next (Cyclic.steps (c.ring t).count
        (stride reverse (c.ring t).count)) (c.hit t) s).isSome = true := by
      have hperm := Cyclic.steps_perm hpos hcoprime s
      exact List.find?_isSome.mpr ⟨m, hperm.mem_iff.mpr hrange, hhit⟩
    obtain ⟨c', hrun⟩ := presses_eq reverse hpos hsome hc h rfl rfl
      (k + (c.matching t).length)
    exact ⟨_, c', hrun, Cyclic.visits_steps_perm hpos hcoprime (c.hit t) k _⟩

-- ==== the theorem

/-- The scrollback of a terminal is empty behind the initialization, and
behind any calls at an unchanged resolution it holds the newest of the lines
that left the screen since it was last cleared; a search for a query succeeds
where one of them contains it; and the key that searches on goes through all
that do. -/
theorem scrollback_is_faithful_and_searched (ht : t < ttyCount)
    (h : Reachable c) :
    (∀ c', c.Starts → c.step .init = some c' → c'.history t = []) ∧
      (∀ events c', Stream t c events c' →
        c'.history t = (since (c.history t) events).rtake scrollbackLines) ∧
      (∀ op events c₁ c', Stream t c events c₁ → op ≠ .init →
        c₁.step op = some c' → c'.cols = c₁.cols →
        ∃ more, Stream t c (events ++ more) c') ∧
      (c.isReady = true → (c.ttys t).searchLen ≠ 0 → ∀ reverse,
        ∃ found c', searchFind t reverse c = some (found, c') ∧
          (found = true ↔
            ∃ line ∈ c.history t, Contains (c.ttys t).query line)) ∧
      (Browsing t c → ∀ reverse k,
        ∃ lines c', presses t (findKey reverse) (k + (c.matching t).length) c
            = some (lines, c') ∧ (lines.drop k).Perm (c.matching t)) := by
  have hfits (hready : c.isReady = true) : ∃ g, c.Fits g := by
    obtain ⟨hrows, hcols⟩ := h.sound.sized hready
    exact h.sound.fits hrows hcols
  refine ⟨fun c' => init_history ht, fun events c' hstream => ?_,
    fun op events c₁ c' hstream hop hstep hcols => hstream.step hop hcols hstep,
    fun hready hquery reverse => ?_, fun hbrowsing reverse k => ?_⟩
  · exact (hstream.history (h.valid ht)).2
  · obtain ⟨g, hc⟩ := hfits hready
    obtain ⟨c', hrun, -⟩ := searchFind_apply reverse hc ht hquery
    exact ⟨_, c', hrun, next_isSome_iff reverse c⟩
  · obtain ⟨g, hc⟩ := hfits hbrowsing.ready
    exact hbrowsing.cycle reverse hc k

theorem Reachable.calls {ops : List Op} (h : Reachable c)
    (hops : ∀ op ∈ ops, ∀ width height, op ≠ .setResolution width height)
    (hrun : ops.foldlM Console.step c = some c') : Reachable c' := by
  induction ops generalizing c with
  | nil =>
    cases hrun
    exact h
  | cons op ops ih =>
    rw [List.foldlM_cons] at hrun
    obtain ⟨c1, hstep, hrest⟩ := Option.bind_eq_some_iff.mp hrun
    have hleaves : c.Leaves op := by
      cases op with
      | setResolution width height =>
        exact absurd rfl (hops _ List.mem_cons_self width height)
      | _ => trivial
    exact ih (h.step hleaves hstep) (fun op' hmem => hops op' (List.mem_cons_of_mem _ hmem))
      hrest

/-- Nine letters in lines of their own, of which the second and the fourth are
found among the four that left a screen of five rows. -/
theorem scrollback_is_faithful_and_searched_letters :
    ∃ c, Reachable c ∧ c.matching 0 = [1, 3] ∧
      ∃ lines c', presses 0 0x6E 2 c = some (lines, c') ∧ lines.Perm [1, 3] := by
  let ops : List Op := [smallDisplay, .init,
    .write 0 [0x61, 10, 0x62, 10, 0x63, 10, 0x42, 10, 0x64, 10, 0x65, 10,
      0x66, 10, 0x67, 10, 0x68],
    .pageUp, .key 0x2F, .key 0x62, .key 10]
  have hrun : (ops.foldlM Console.step boot).any (fun c =>
      decide (c.isReady = true ∧ c.activeIndex = 0 ∧
        (c.ttys 0).searchEditing = false ∧ (c.ttys 0).searchLen ≠ 0 ∧
        (c.ttys 0).scrollbackIsActive ∧ c.matching 0 = [1, 3])) = true := by
    decide +kernel
  obtain ⟨c, hsome, hbrowsed⟩ := (Option.any_eq_true ..).mp hrun
  obtain ⟨hready, hshown, hentered, hquery, hscrolled, hmatching⟩ :=
    of_decide_eq_true hbrowsed
  have hops : ∀ op ∈ ops, ∀ width height, op ≠ .setResolution width height := by
    intro op hop width height heq
    rw [heq] at hop
    simp [ops, smallDisplay] at hop
  have hreach : Reachable c := Reachable.boot.calls hops hsome
  obtain ⟨-, -, -, -, hcycle⟩ :=
    @scrollback_is_faithful_and_searched 0 c (by decide) hreach
  obtain ⟨lines, c', hpressed, hperm⟩ :=
    hcycle ⟨hready, hshown, by decide, hentered, hquery, hscrolled⟩ false 0
  rw [hmatching] at hpressed hperm
  exact ⟨c, hreach, hmatching, lines, c', hpressed, hperm⟩

end Clks.Tty
