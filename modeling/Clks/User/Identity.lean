/-
The identities of the users, over whole histories of the database.

A database that grew from an empty one is the lines of records that
`clks_user_create` built (`Listed`), whatever was changed since, so the
three walks over its text agree. The uid of a user is a number that is
computed from the name, and nothing compares it with the others, so the
users are told apart exactly as long as each new name has a new uid
(`unique_throughout_iff`). This is also what keeps the names distinct
when the text has become too long to be read: then `clks_user_find` finds
nobody, and a name that is there already is taken for a new one.
-/
import Clks.User.Rewriting

namespace Clks.User

-- ==== the walks

/-- `struct clks_user_public_info`. -/
structure PublicInfo where
  uid : UInt64
  role : Role
  loggedIn : Bool
  diskLoginRequired : Bool
  name : List UInt8
  home : List UInt8
  deriving DecidableEq

/-- `clks_user_public_from_record`, where `d` is
`clks_user_disk_login_required`. -/
def publicFromRecord (d : Bool) (r : Record) (loggedIn : Bool) :
    PublicInfo where
  uid := r.uid
  role := r.role
  loggedIn
  diskLoginRequired := d
  name := copy nameMax r.name
  home := copy homeMax r.home

/-- The loop of `clks_user_count`. -/
def countLoop : List (List UInt8) → Nat → Nat
  | [], count => count
  | piece :: pieces, count =>
    match parseLine piece with
    | some _ => countLoop pieces (count + 1)
    | none => countLoop pieces count

/-- `clks_user_count`. -/
def userCount (s : Storage) : Nat :=
  match readDb s with
  | none => 0
  | some text => countLoop (text.splitOn newline) 0

/-- The loop of `clks_user_at`. -/
def atLoop (index : Nat) : List (List UInt8) → Nat → Option Record
  | [], _ => none
  | piece :: pieces, current =>
    match parseLine piece with
    | some r =>
      if current = index then some r else atLoop index pieces (current + 1)
    | none => atLoop index pieces current

/-- `clks_user_at`. -/
def userAt (d : Bool) (index : Nat) (s : Storage) : Option PublicInfo :=
  match readDb s with
  | none => none
  | some text =>
    match atLoop index (text.splitOn newline) 0 with
    | none => none
    | some r => some (publicFromRecord d r true)

section walks

variable {pieces : List (List UInt8)}

theorem countLoop_eq (pieces : List (List UInt8)) (count : Nat) :
    countLoop pieces count = count + (pieces.filterMap parseLine).length := by
  induction pieces generalizing count with
  | nil => rfl
  | cons piece pieces ih =>
    rw [countLoop, List.filterMap_cons]
    cases parseLine piece with
    | none => exact ih count
    | some r =>
      show countLoop pieces (count + 1) = _
      rw [ih, List.length_cons]
      omega

theorem atLoop_eq (pieces : List (List UInt8)) {index current : Nat}
    (h : current ≤ index) :
    atLoop index pieces current
      = (pieces.filterMap parseLine)[index - current]? := by
  induction pieces generalizing current with
  | nil => rfl
  | cons piece pieces ih =>
    rw [atLoop, List.filterMap_cons]
    cases parseLine piece with
    | none => exact ih h
    | some r =>
      show (if current = index then _ else _) = _
      by_cases heq : current = index
      · rw [if_pos heq, heq, Nat.sub_self]
        rfl
      · rw [if_neg heq, ih (by omega)]
        rw [show index - current = index - (current + 1) + 1 by omega]
        rfl

end walks

-- ==== users told apart

/-- The users in the database are told apart, and the walks agree. -/
structure Unique (s : Storage) : Prop where
  names : ((records (s.db.getD [])).map Record.name).Nodup
  uids : ((records (s.db.getD [])).map Record.uid).Nodup
  count : ∀ d index, (userAt d index s).isSome ↔ index < userCount s
  lookup : ∀ d index info, userAt d index s = some info →
    ∃ r, find info.name s = some r ∧ publicFromRecord d r true = info

/-- A call that changes the database. -/
inductive Change
  | create (e : CreateEnv) (c : Caller) (name password : List UInt8)
      (role : Role)
  | rewrite (o : Outcome) (c : Caller) (op : Op)

/-- The call is made. -/
def Change.run : Change → Storage → Bool × Storage
  | .create e c name password role => Clks.User.create e c name password role
  | .rewrite o c op => op.run o c

/-- A user that is created gets a uid that no user has. -/
def Change.NewUid (s : Storage) : Change → Prop
  | .create _ _ name _ _ =>
    uidForName name ∉ (records (s.db.getD [])).map Record.uid
  | .rewrite .. => True

/-- All of the calls return true. -/
def Succeed : List Change → Storage → Prop
  | [], _ => True
  | ch :: chs, s => (ch.run s).1 = true ∧ Succeed chs (ch.run s).2

/-- The database before, between and after the calls. -/
def Throughout (P : Storage → Prop) : List Change → Storage → Prop
  | [], s => P s
  | ch :: chs, s => P s ∧ Throughout P chs (ch.run s).2

/-- Every user that is created gets a uid that no user has then. -/
def NewUids : List Change → Storage → Prop
  | [], _ => True
  | ch :: chs, s => ch.NewUid s ∧ NewUids chs (ch.run s).2

-- ==== what is listed

/-- The record was built by `clks_user_create`, but for the password and
the role. -/
def Made (r : Record) : Prop :=
  nameValid r.name = true ∧ ∃ password, r = newRecord r.name password r.role

/-- The text of the database is the lines of these records. -/
structure Listed (s : Storage) (rs : List Record) : Prop where
  text : s.db.getD [] = rs.flatMap recordLine
  made : ∀ r ∈ rs, Made r

section listed

variable {s : Storage} {r : Record} {rs : List Record} {o : Option Record}
  {name line : List UInt8}

theorem newRecord_name (password : List UInt8) (role : Role)
    (hname : nameValid name = true) :
    (newRecord name password role).name = name :=
  List.take_of_length_le (Nat.le_sub_one_of_lt (nameValid_iff.mp hname).2.1)

theorem made_newRecord (password : List UInt8) (role : Role)
    (hname : nameValid name = true) : Made (newRecord name password role) := by
  have hself := newRecord_name password role hname
  refine ⟨by rw [hself]; exact hname, password, ?_⟩
  rw [hself]
  rfl

theorem Made.uid (h : Made r) : r.uid = uidForName r.name := by
  obtain ⟨-, password, heq⟩ := h
  exact congrArg Record.uid heq

theorem Made.withHash (h : Made r) (password : List UInt8) :
    Made { r with hash := hashPassword password } := by
  obtain ⟨hname, old, heq⟩ := h
  refine ⟨hname, password, ?_⟩
  show { r with hash := hashPassword password }
    = { newRecord r.name old r.role with hash := hashPassword password }
  rw [← heq]

theorem Made.withRole (h : Made r) (role : Role) : Made { r with role } := by
  obtain ⟨hname, password, heq⟩ := h
  refine ⟨hname, password, ?_⟩
  show { r with role } = { newRecord r.name password r.role with role }
  rw [← heq]

theorem Made.valid (h : Made r) :
    r.Valid ∧ r.Trimmed ∧ r.text.length + 1 < recordMax := by
  obtain ⟨hname, password, heq⟩ := h
  rw [heq]
  exact ⟨newRecord_valid password r.role hname,
    newRecord_trimmed password r.role hname,
    length_newRecord_text password r.role hname⟩

theorem Made.closed (h : Made r) :
    newline ∉ r.text ∧ recordLine r = r.text ++ [newline] ∧
      parseLine r.text = some r := by
  obtain ⟨hvalid, htrim, hshort⟩ := h.valid
  obtain ⟨hline, hparse⟩ := closed_line hvalid hshort
  exact ⟨newline_notMem_text hvalid, hline,
    hparse.mpr ⟨htrim, Or.inl (Nat.lt_of_succ_lt hshort)⟩⟩

theorem records_made (h : ∀ r ∈ rs, Made r) :
    records (rs.flatMap recordLine) = rs := by
  induction rs with
  | nil => exact records_nil
  | cons r rs ih =>
    obtain ⟨hnot, hline, hparse⟩ := (h r List.mem_cons_self).closed
    rw [List.flatMap_cons, hline, List.append_assoc, List.singleton_append,
      records_cons hnot, hparse, ih fun q hq => h q (List.mem_cons_of_mem _ hq)]
    rfl

theorem Listed.records_eq (h : Listed s rs) : records (s.db.getD []) = rs := by
  rw [h.text]
  exact records_made h.made

theorem chunk_made (h : Made r) :
    chunk name line r.text = if r.name = name then line else recordLine r := by
  obtain ⟨hvalid, -, hshort⟩ := h.valid
  obtain ⟨-, hline, hparse⟩ := h.closed
  have hself : cutLine r.text = r.text := by
    unfold cutLine cstr
    rw [List.take_of_length_le (by omega), List.takeWhile_eq_self_iff]
    intro c hc
    simpa using (text_chars hvalid hc).2
  unfold chunk
  rw [hparse]
  show (if r.name = name then line else cutLine r.text ++ [newline]) = _
  rw [hself, hline]

theorem copied_made (h : ∀ r ∈ rs, Made r) (new : Option Record) :
    copied name (new.elim [] recordLine)
        ((rs.flatMap recordLine).splitOn newline)
      = (changed name (fun _ => new) rs).flatMap recordLine := by
  unfold copied
  induction rs with
  | nil =>
    show (([] : List UInt8).splitOn newline).flatMap _ = []
    rw [List.splitOn_nil, List.flatMap_singleton]
    unfold chunk
    rw [parseLine_nil]
    rfl
  | cons r rs ih =>
    have hr := h r List.mem_cons_self
    obtain ⟨hnot, hline, -⟩ := hr.closed
    rw [List.flatMap_cons, hline, List.append_assoc, List.singleton_append,
      List.splitOn_append_cons_self, List.splitOn_eq_singleton hnot,
      List.flatMap_append, List.flatMap_singleton, chunk_made hr,
      ih fun q hq => h q (List.mem_cons_of_mem _ hq), changed_cons,
      List.flatMap_append]
    congr 1
    by_cases hname : r.name = name
    · rw [if_pos hname, if_pos hname]
      cases new with
      | none => rfl
      | some new => simp
    · rw [if_neg hname, if_neg hname]
      simp

theorem changed_names (h : ∀ n, o = some n → n.name = name) :
    ((changed name (fun _ => o) rs).map Record.name).Sublist
      (rs.map Record.name) := by
  induction rs with
  | nil => exact List.Sublist.refl _
  | cons r rs ih =>
    rw [changed_cons, List.map_append, List.map_cons]
    by_cases hr : r.name = name
    · rw [if_pos hr]
      cases ho : o with
      | none => exact (ho ▸ ih).cons _
      | some n =>
        show (n.name ::
          (changed name (fun _ => some n) rs).map Record.name).Sublist _
        rw [h n ho, hr]
        exact (ho ▸ ih).cons_cons _
    · rw [if_neg hr]
      exact ih.cons_cons _

theorem mem_changed (h : r ∈ changed name (fun _ => o) rs) :
    o = some r ∨ r ∈ rs := by
  obtain ⟨q, hq, heq⟩ := List.mem_filterMap.mp h
  by_cases hname : q.name = name
  · rw [if_pos hname] at heq
    exact Or.inl heq
  · rw [if_neg hname] at heq
    cases heq
    exact Or.inr hq

end listed

-- ==== steps

section steps

variable {s : Storage} {rs : List Record} {e : CreateEnv} {o : Outcome}
  {c : Caller} {op : Op} {name password next : List UInt8} {role : Role}

theorem Op.rewritten_made (hmade : ∀ r ∈ rs, Made r)
    (h : op.rewritten (rs.flatMap recordLine) = some next) :
    ∃ new : Option Record, (∀ n, new = some n → Made n ∧ n.name = op.name) ∧
      next = (changed op.name (fun _ => new) rs).flatMap recordLine := by
  -- The record that is replaced is one of the list.
  have hfound : ∀ {name q}, findIn name (rs.flatMap recordLine) = some q →
      Made q ∧ q.name = name := by
    intro name q hq
    rw [findIn_eq, records_made hmade] at hq
    exact ⟨hmade q (List.mem_of_find?_eq_some hq),
      by simpa using List.find?_some hq⟩
  have hreplaced : ∀ {new : Record}, Made new → new.name = op.name →
      rewriteText (some new) none (rs.flatMap recordLine) = some next →
      ∃ new : Option Record, (∀ n, new = some n → Made n ∧ n.name = op.name) ∧
        next = (changed op.name (fun _ => new) rs).flatMap recordLine := by
    intro new hnew hname hnext
    refine ⟨some new, ?_, ?_⟩
    · intro n hn
      cases hn
      exact ⟨hnew, hname⟩
    · rw [(rewriteText_some (Job.replace new) hnext).2, hname]
      exact copied_made hmade (some new)
  cases op with
  | remove name =>
    refine ⟨none, (fun _ hn => nomatch hn), ?_⟩
    rw [(rewriteText_some (Job.remove name) h).2]
    exact copied_made hmade none
  | changePassword name old password =>
    simp only [Op.rewritten, Op.name] at h
    cases hq : findIn name (rs.flatMap recordLine) with
    | none =>
      rw [hq] at h
      cases h
    | some q =>
      rw [hq] at h
      obtain ⟨hmadeq, hname⟩ := hfound hq
      exact hreplaced (hmadeq.withHash password) hname h
  | setRole name role =>
    simp only [Op.rewritten, Op.name] at h
    cases hq : findIn name (rs.flatMap recordLine) with
    | none =>
      rw [hq] at h
      cases h
    | some q =>
      rw [hq] at h
      obtain ⟨hmadeq, hname⟩ := hfound hq
      exact hreplaced (hmadeq.withRole role) hname h

theorem Op.run_true (h : (op.run o c s).1 = true) :
    ∃ text next, s.db = some text ∧ op.rewritten text = some next ∧
      (op.run o c s).2 = ⟨some next⟩ := by
  obtain ⟨db⟩ := s
  cases db with
  | none =>
    have hnone : ∀ name, find name ⟨none⟩ = none := by
      intro name
      unfold find
      exact ite_self _
    cases op with
    | changePassword name old password =>
      simp [Op.run, Clks.User.changePassword, hnone] at h
    | setRole name role => simp [Op.run, Clks.User.setRole, hnone] at h
    | remove name =>
      simp [Op.run, Clks.User.remove, dbRewriteWith, readDb] at h
  | some text =>
    rw [Op.run_eq] at h ⊢
    split_ifs at h ⊢ with hreach
    cases hnext : op.rewritten text with
    | none =>
      rw [hnext] at h
      cases h
    | some next =>
      rw [hnext] at h
      refine ⟨text, next, rfl, hnext, ?_⟩
      dsimp only at h ⊢
      unfold fsWriteAll at h ⊢
      split_ifs at h ⊢
      rfl

theorem Listed.rewrite (hl : Listed s rs) (h : (op.run o c s).1 = true) :
    ∃ rs', Listed (op.run o c s).2 rs' ∧
      (rs'.map Record.name).Sublist (rs.map Record.name) := by
  obtain ⟨text, next, hdb, hnext, hrun⟩ := Op.run_true h
  have htext := hl.text
  rw [hdb] at htext
  rw [show text = rs.flatMap recordLine from htext] at hnext
  obtain ⟨new, hnew, rfl⟩ := Op.rewritten_made hl.made hnext
  refine ⟨_, ⟨by rw [hrun]; rfl, ?_⟩, changed_names fun n hn => (hnew n hn).2⟩
  intro r hr
  cases mem_changed hr with
  | inl hsome => exact (hnew r hsome).1
  | inr hold => exact hl.made r hold

theorem Listed.create (hl : Listed s rs)
    (h : (Clks.User.create e c name password role s).1 = true) :
    Listed (Clks.User.create e c name password role s).2
      (rs ++ [newRecord name password role]) := by
  obtain ⟨hname, -, hstate⟩ := create_true h
  rw [hstate]
  refine ⟨?_, ?_⟩
  · rw [List.flatMap_append, List.flatMap_singleton, ← hl.text]
    rfl
  · intro r hr
    cases List.mem_append.mp hr with
    | inl hold => exact hl.made r hold
    | inr hnew =>
      rw [List.mem_singleton.mp hnew]
      exact made_newRecord password role hname

theorem uids_eq (h : ∀ r ∈ rs, Made r) :
    rs.map Record.uid = (rs.map Record.name).map uidForName := by
  rw [List.map_map]
  exact List.map_congr_left fun r hr => (h r hr).uid

theorem Listed.userAt (hl : Listed s rs) (d : Bool) (index : Nat) :
    userAt d index s
      = if (s.db.getD []).length < dbMax then
          rs[index]?.map fun r => publicFromRecord d r true
        else none := by
  have hrecords := hl.records_eq
  obtain ⟨db⟩ := s
  cases db with
  | none =>
    have hnil : rs = [] := by
      rw [← hrecords]
      exact records_nil
    rw [hnil]
    simp [Clks.User.userAt, readDb]
  | some text =>
    have hloop : atLoop index (text.splitOn newline) 0 = rs[index]? := by
      rw [atLoop_eq _ (Nat.zero_le index), Nat.sub_zero, ← hrecords]
      rfl
    simp only [Clks.User.userAt, readDb, Option.getD_some]
    by_cases hlen : text.length < dbMax
    · rw [if_neg (Nat.not_lt.mpr hlen), if_pos hlen]
      dsimp only
      rw [hloop]
      cases rs[index]? <;> rfl
    · rw [if_pos (Nat.lt_succ_of_le (Nat.le_of_not_lt hlen)), if_neg hlen]

theorem Listed.userCount (hl : Listed s rs) :
    userCount s
      = if (s.db.getD []).length < dbMax then rs.length else 0 := by
  have hrecords := hl.records_eq
  obtain ⟨db⟩ := s
  cases db with
  | none =>
    have hnil : rs = [] := by
      rw [← hrecords]
      exact records_nil
    rw [hnil]
    simp [Clks.User.userCount, readDb]
  | some text =>
    have hloop : countLoop (text.splitOn newline) 0 = rs.length := by
      rw [countLoop_eq, Nat.zero_add, ← hrecords]
      rfl
    simp only [Clks.User.userCount, readDb, Option.getD_some]
    by_cases hlen : text.length < dbMax
    · rw [if_neg (Nat.not_lt.mpr hlen), if_pos hlen]
      exact hloop
    · rw [if_pos (Nat.lt_succ_of_le (Nat.le_of_not_lt hlen)), if_neg hlen]

theorem Listed.lookup (hl : Listed s rs)
    (hnames : (rs.map Record.name).Nodup) {d : Bool} {index : Nat}
    {info : PublicInfo} (h : Clks.User.userAt d index s = some info) :
    ∃ r, find info.name s = some r ∧ publicFromRecord d r true = info := by
  rw [hl.userAt] at h
  split_ifs at h with hlen
  obtain ⟨r, hr, rfl⟩ := Option.map_eq_some_iff.mp h
  have hmem : r ∈ rs := List.mem_of_getElem? hr
  have hvalid := (hl.made r hmem).1
  have hself : copy nameMax r.name = r.name :=
    List.take_of_length_le (Nat.le_sub_one_of_lt (nameValid_iff.mp hvalid).2.1)
  refine ⟨r, ?_, rfl⟩
  show find (copy nameMax r.name) s = some r
  rw [hself]
  have hrecords := hl.records_eq
  obtain ⟨db⟩ := s
  cases db with
  | none =>
    have hnil : rs = [] := by
      rw [← hrecords]
      exact records_nil
    rw [hnil] at hmem
    cases hmem
  | some text =>
    rw [Option.getD_some] at hrecords hlen
    rw [find_eq, if_pos ⟨hvalid, hlen⟩, hrecords]
    obtain ⟨q, hq⟩ := Option.isSome_iff_exists.mp
      (List.find?_isSome.mpr ⟨r, hmem, decide_eq_true rfl⟩ :
        (rs.find? fun q => decide (q.name = r.name)).isSome = true)
    have hqname : q.name = r.name := by simpa using List.find?_some hq
    rw [hq, List.inj_on_of_nodup_map hnames
      (List.mem_of_find?_eq_some hq) hmem hqname]

theorem Listed.unique_iff (hl : Listed s rs) :
    Unique s ↔ (rs.map Record.uid).Nodup := by
  constructor
  · intro h
    rw [← hl.records_eq]
    exact h.uids
  · intro huids
    have hnames : (rs.map Record.name).Nodup := by
      rw [uids_eq hl.made] at huids
      exact huids.of_map
    refine ⟨?_, ?_, ?_, ?_⟩
    · rw [hl.records_eq]
      exact hnames
    · rw [hl.records_eq]
      exact huids
    · intro d index
      rw [hl.userAt, hl.userCount]
      by_cases hlen : (s.db.getD []).length < dbMax
      · rw [if_pos hlen, if_pos hlen, Option.isSome_map]
        simp
      · rw [if_neg hlen, if_neg hlen]
        simp
    · intro d index info h
      exact hl.lookup hnames h

theorem Listed.step {ch : Change} (hl : Listed s rs) (hu : Unique s)
    (h : (ch.run s).1 = true) :
    ∃ rs', Listed (ch.run s).2 rs' ∧ (Unique (ch.run s).2 ↔ ch.NewUid s) := by
  cases ch with
  | rewrite o c op =>
    obtain ⟨rs', hl', hsub⟩ := hl.rewrite h
    refine ⟨rs', hl', iff_of_true ?_ trivial⟩
    refine hl'.unique_iff.mpr ?_
    have huids := hl.unique_iff.mp hu
    rw [uids_eq hl.made] at huids
    rw [uids_eq hl'.made]
    exact huids.sublist (hsub.map _)
  | create e c name password role =>
    have hl' := hl.create h
    refine ⟨_, hl', hl'.unique_iff.trans ?_⟩
    have huids := hl.unique_iff.mp hu
    show _ ↔ uidForName name ∉ (records (s.db.getD [])).map Record.uid
    rw [hl.records_eq, List.map_append, List.nodup_append]
    constructor
    · intro hnodup hmem
      exact hnodup.2.2 _ hmem _ (List.mem_singleton_self _) rfl
    · intro hnew
      refine ⟨huids, List.nodup_singleton _, ?_⟩
      intro u hmem v hv heq
      rw [List.mem_singleton.mp hv] at heq
      have huid : u = uidForName name := heq
      exact hnew (huid ▸ hmem)

end steps

-- ==== histories

theorem Listed.run {s : Storage} {rs : List Record} {chs : List Change}
    (hl : Listed s rs) (hu : Unique s) (h : Succeed chs s) :
    Throughout Unique chs s ↔ NewUids chs s := by
  induction chs generalizing s rs with
  | nil => exact iff_of_true hu trivial
  | cons ch chs ih =>
    obtain ⟨hok, hrest⟩ := h
    obtain ⟨rs', hl', hstep⟩ := hl.step hu hok
    constructor
    · intro hall
      have hu' : Unique (ch.run s).2 := by
        cases chs with
        | nil => exact hall.2
        | cons => exact hall.2.1
      exact ⟨hstep.mp hu', (ih hl' hu' hrest).mp hall.2⟩
    · intro hnew
      have hu' := hstep.mpr hnew.1
      exact ⟨hu, (ih hl' hu' hrest).mpr hnew.2⟩

/-- From an empty database on the users are told apart, and the walks
agree, at every point of a history exactly if every user that is created
gets a uid that no user has then. -/
theorem unique_throughout_iff {s : Storage} {chs : List Change}
    (hempty : s.db.getD [] = []) (h : Succeed chs s) :
    Throughout Unique chs s ↔ NewUids chs s := by
  have hl : Listed s [] := ⟨hempty, fun _ hr => nomatch hr⟩
  exact hl.run (hl.unique_iff.mpr List.nodup_nil) h

-- ==== examples

/-- The administrator creates a user. -/
def creation (name : List UInt8) : Change :=
  .create readyEnv rootCaller name (txt "pw") .user

/-- A user that is created in an empty database. -/
theorem unique_throughout_lr :
    Throughout Unique [creation (txt "lr")] ⟨none⟩ := by
  refine (unique_throughout_iff (s := ⟨none⟩) rfl ?_).mpr ⟨?_, trivial⟩
  · exact ⟨by decide +kernel, trivial⟩
  · show uidForName (txt "lr") ∉ (records []).map Record.uid
    rw [records_nil]
    exact List.not_mem_nil

/-- Two users with the same uid. -/
theorem lr_opa_same_uid :
    Succeed [creation (txt "lr"), creation (txt "opa")] ⟨none⟩ ∧
      ¬ Throughout Unique [creation (txt "lr"), creation (txt "opa")]
        ⟨none⟩ := by
  refine ⟨⟨by decide +kernel, by decide +kernel, trivial⟩, ?_⟩
  intro h
  have huids := h.2.2.uids
  revert huids
  decide +kernel

end Clks.User
