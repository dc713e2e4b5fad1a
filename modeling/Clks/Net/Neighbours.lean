/-
The table of the neighbours whose hardware addresses are known (net.c,
`clks_net_arp_table`), as a cache.

Every store stamps its entry, and where the table is full the entry with the
lowest stamp makes room. In the order of their stamps the entries are then
the front of what has been stored last under each address. Stamps have 64
bits: the store that gets stamp 0 again is the right one, and the next one
evicts it.
-/
import Clks.Lib.Recency
import Clks.Net.Frame

namespace Clks.Net

/-- `CLKS_NET_ARP_TABLE_CAP`. -/
abbrev arpTableCap : Nat := 16

/-- An entry of zeros. -/
def ArpEntry.zero : ArpEntry := ⟨false, 0, ⟨List.replicate 6 0, rfl⟩, 0⟩

/-- `clks_net_arp_table_reset`. -/
def ArpTable.reset : ArpTable := ⟨List.replicate arpTableCap ArpEntry.zero, 1⟩

/-- `clks_net_arp_lookup`. -/
def ArpTable.lookup (ipv4 : UInt32) (t : ArpTable) : Option Mac :=
  (t.entries.find? fun e => e.valid && e.ipv4 = ipv4).map ArpEntry.mac

/-- What has come in, one update after the other. -/
abbrev Updates := List (UInt32 × Mac)

/-- The table behind these updates. -/
def ArpTable.run (us : Updates) : ArpTable :=
  us.foldl (fun t u => t.upsert u.1 u.2) .reset

/-- Is this an update that stores something? -/
def stores (u : UInt32 × Mac) : Bool := !(macInvalid u.2 || u.1 = 0)

/-- What has been stored, the last store first. -/
def history (us : Updates) : Updates := (us.filter stores).reverse

/-- What an entry says. -/
def ArpEntry.binding (e : ArpEntry) : UInt32 × Mac := (e.ipv4, e.mac)

/-- The entries in use. -/
def ArpTable.valid (t : ArpTable) : List ArpEntry := t.entries.filter ArpEntry.valid

section neighbours

variable {t t' : ArpTable} {u : UInt32 × Mac} {us h : Updates} {e : ArpEntry}
  {i : Nat} {ipv4 : UInt32}

theorem history_snoc :
    history (us ++ [u]) = if stores u then u :: history us else history us := by
  unfold history
  rw [List.filter_append, List.reverse_append]
  by_cases hu : stores u = true
  · rw [List.filter_cons_of_pos hu, if_pos hu]
    rfl
  · rw [List.filter_cons_of_neg hu, if_neg hu]
    rfl

theorem run_snoc :
    ArpTable.run (us ++ [u]) = (ArpTable.run us).upsert u.1 u.2 := by
  unfold ArpTable.run
  rw [List.foldl_append]
  rfl

theorem lookup_eq : t.lookup ipv4 = Recency.find ipv4 (t.valid.map ArpEntry.binding) := by
  unfold ArpTable.lookup ArpTable.valid
  induction t.entries with
  | nil => rfl
  | cons e es ih =>
    by_cases hvalid : e.valid = true
    · rw [List.filter_cons_of_pos hvalid, List.map_cons]
      by_cases hip : e.ipv4 = ipv4
      · rw [List.find?_cons_of_pos (by simp [hvalid, hip]),
          Recency.find_cons_self (u := e.binding) hip]
        rfl
      · rw [List.find?_cons_of_neg (by simp [hip]),
          Recency.find_cons_of_ne (u := e.binding) hip]
        exact ih
    · rw [List.filter_cons_of_neg hvalid, List.find?_cons_of_neg (by simp [hvalid])]
      exact ih

-- ==== the victim

theorem oldest_fold (es : List ArpEntry) (start : Nat) (best : Nat × Nat) :
    let r := (es.zipIdx start).foldl
      (fun best e => if e.1.stamp < best.1 then (e.1.stamp, e.2) else best) best
    (r = best ∧ ∀ e ∈ es, best.1 ≤ e.stamp) ∨
      ∃ j e, es[j]? = some e ∧ r = (e.stamp, start + j) ∧ e.stamp < best.1 ∧
        ∀ e' ∈ es, e.stamp ≤ e'.stamp := by
  induction es generalizing start best with
  | nil => exact .inl ⟨rfl, nofun⟩
  | cons e es ih =>
    rw [List.zipIdx_cons, List.foldl_cons]
    by_cases hlt : e.stamp < best.1
    · rw [if_pos hlt]
      rcases ih (start + 1) (e.stamp, start) with
        ⟨hr, hmin⟩ | ⟨j, e', he', hr, hlt', hmin⟩
      · refine .inr ⟨0, e, rfl, hr, hlt, fun e' he' => ?_⟩
        rcases List.mem_cons.mp he' with rfl | he'
        · exact Nat.le_refl _
        · exact hmin e' he'
      · refine .inr ⟨j + 1, e', he', ?_, Nat.lt_trans hlt' hlt, fun e'' he'' => ?_⟩
        · rw [hr, Nat.add_assoc, Nat.add_comm 1 j]
        · rcases List.mem_cons.mp he'' with rfl | he''
          · exact Nat.le_of_lt hlt'
          · exact hmin e'' he''
    · rw [if_neg hlt]
      rcases ih (start + 1) best with ⟨hr, hmin⟩ | ⟨j, e', he', hr, hlt', hmin⟩
      · refine .inl ⟨hr, fun e' he' => ?_⟩
        rcases List.mem_cons.mp he' with rfl | he'
        · exact Nat.le_of_not_lt hlt
        · exact hmin e' he'
      · refine .inr ⟨j + 1, e', he', ?_, hlt', fun e'' he'' => ?_⟩
        · rw [hr, Nat.add_assoc, Nat.add_comm 1 j]
        · rcases List.mem_cons.mp he'' with rfl | he''
          · exact Nat.le_trans (Nat.le_of_lt hlt') (Nat.le_of_not_lt hlt)
          · exact hmin e'' he''

theorem oldestIndex_spec (he : e ∈ t.entries) (hstamp : e.stamp < 2 ^ 64 - 1) :
    ∃ old, t.entries[t.oldestIndex]? = some old ∧
      ∀ e' ∈ t.entries, old.stamp ≤ e'.stamp := by
  unfold ArpTable.oldestIndex
  rcases oldest_fold t.entries 0 (2 ^ 64 - 1, 0) with
    ⟨-, hmin⟩ | ⟨j, old, hold, hr, -, hmin⟩
  · exact absurd (hmin e he) (Nat.not_le.mpr hstamp)
  · refine ⟨old, ?_, hmin⟩
    rw [hr, Nat.zero_add]
    exact hold

theorem oldestIndex_lt (hlength : t.entries.length = arpTableCap) :
    t.oldestIndex < arpTableCap := by
  unfold ArpTable.oldestIndex
  rcases oldest_fold t.entries 0 (2 ^ 64 - 1, 0) with
    ⟨hr, -⟩ | ⟨j, old, hold, hr, -, -⟩
  · rw [hr]
    decide
  · rw [hr, Nat.zero_add, ← hlength]
    exact (List.getElem?_eq_some_iff.mp hold).1

-- ==== one store

/-- The entry that a store writes. -/
def ArpTable.fresh (u : UInt32 × Mac) (t : ArpTable) : ArpEntry :=
  ⟨true, u.1, u.2, t.stamp⟩

/-- The entry that makes room: it is of the same address, or no entry is and
it is free, or the one that is evicted. -/
inductive ArpTable.Replaces (u : UInt32 × Mac) (t : ArpTable) (i : Nat)
    (old : ArpEntry) : Prop
  | own : old.valid = true → old.ipv4 = u.1 → Replaces u t i old
  | free : (∀ e ∈ t.valid, e.ipv4 ≠ u.1) → old.valid = false →
      Replaces u t i old
  | evicted : (∀ e ∈ t.valid, e.ipv4 ≠ u.1) → (∀ e ∈ t.entries, e.valid = true) →
      i = t.oldestIndex → Replaces u t i old

theorem upsert_cases (hlength : t.entries.length = arpTableCap)
    (hu : stores u = true) :
    ∃ i old, t.entries[i]? = some old ∧ t.Replaces u i old ∧
      t.upsert u.1 u.2
        = ⟨t.entries.set i (t.fresh u), (t.stamp + 1) % 2 ^ 64⟩ := by
  unfold stores at hu
  rw [Bool.not_eq_true'] at hu
  unfold ArpTable.upsert
  rw [if_neg (by rw [hu]; nofun)]
  dsimp only
  cases hown : t.entries.findIdx? fun e => e.valid && e.ipv4 = u.1 with
  | some i =>
    obtain ⟨hi, hvalid, -⟩ := List.findIdx?_eq_some_iff_getElem.mp hown
    rw [Bool.and_eq_true, decide_eq_true_iff] at hvalid
    exact ⟨i, _, List.getElem?_eq_getElem hi, .own hvalid.1 hvalid.2, rfl⟩
  | none =>
    have hnone : ∀ e ∈ t.valid, e.ipv4 ≠ u.1 := by
      intro e he heq
      obtain ⟨hmem, hvalid⟩ := List.mem_filter.mp he
      have hfalse := List.findIdx?_eq_none_iff.mp hown e hmem
      rw [hvalid, heq] at hfalse
      simp at hfalse
    cases hfree : t.entries.findIdx? fun e => !e.valid with
    | some i =>
      obtain ⟨hi, hvalid, -⟩ := List.findIdx?_eq_some_iff_getElem.mp hfree
      rw [Bool.not_eq_true'] at hvalid
      exact ⟨i, _, List.getElem?_eq_getElem hi, .free hnone hvalid, rfl⟩
    | none =>
      have hi : t.oldestIndex < t.entries.length := by
        rw [hlength]
        exact oldestIndex_lt hlength
      refine ⟨_, _, List.getElem?_eq_getElem hi, .evicted hnone (fun e he => ?_) rfl,
        rfl⟩
      simpa using List.findIdx?_eq_none_iff.mp hfree e he

theorem valid_set {old new : ArpEntry} {stamp : Nat}
    (hold : t.entries[i]? = some old) (hnew : new.valid = true) :
    ∃ rest, t.valid.Perm (if old.valid then old :: rest else rest) ∧
      (ArpTable.valid ⟨t.entries.set i new, stamp⟩).Perm (new :: rest) := by
  obtain ⟨hi, heq⟩ := List.getElem?_eq_some_iff.mp hold
  have hsplit : t.entries = t.entries.take i ++ old :: t.entries.drop (i + 1) := by
    conv_lhs => rw [← List.take_append_drop i t.entries]
    rw [List.drop_eq_getElem_cons hi, heq]
  refine ⟨(t.entries.take i).filter ArpEntry.valid
    ++ (t.entries.drop (i + 1)).filter ArpEntry.valid, ?_, ?_⟩
  · unfold ArpTable.valid
    conv_lhs => rw [hsplit]
    rw [List.filter_append]
    by_cases hvalid : old.valid = true
    · rw [List.filter_cons_of_pos hvalid, if_pos hvalid]
      exact List.perm_middle
    · rw [List.filter_cons_of_neg hvalid, if_neg hvalid]
  · unfold ArpTable.valid
    dsimp only
    rw [List.set_eq_take_append_cons_drop, if_pos hi, List.filter_append,
      List.filter_cons_of_pos hnew]
    exact List.perm_middle

-- ==== what is said

/-- No address has two entries, and what an entry says is what was stored
last. -/
structure ArpTable.Truthful (h : Updates) (t : ArpTable) : Prop where
  length : t.entries.length = arpTableCap
  nodup : (t.valid.map ArpEntry.ipv4).Nodup
  last : ∀ e ∈ t.valid, Recency.find e.ipv4 h = some e.mac

theorem truthful_reset : ArpTable.reset.Truthful [] := by
  have hvalid : ArpTable.reset.valid = [] := by decide
  refine ⟨rfl, ?_, ?_⟩
  · rw [hvalid]
    exact List.nodup_nil
  · rw [hvalid]
    nofun

theorem ArpTable.Truthful.upsert (ht : t.Truthful h) (hu : stores u = true) :
    (t.upsert u.1 u.2).Truthful (u :: h) := by
  obtain ⟨i, old, hold, hreplaces, heq⟩ := upsert_cases ht.length hu
  obtain ⟨rest, hbefore, hafter⟩ :=
    @valid_set t i old (t.fresh u) ((t.stamp + 1) % 2 ^ 64) hold rfl
  have hsub : rest.Sublist (if old.valid then old :: rest else rest) := by
    split
    · exact List.sublist_cons_self ..
    · exact .refl _
  have hrest : ∀ e ∈ rest, e ∈ t.valid := fun e he =>
    hbefore.mem_iff.mpr (hsub.subset he)
  have hnodup : ((if old.valid then old :: rest else rest).map
      ArpEntry.ipv4).Nodup := (hbefore.map _).nodup_iff.mp ht.nodup
  have hother : ∀ e ∈ rest, e.ipv4 ≠ u.1 := by
    intro e he
    cases hreplaces with
    | own hvalid hip =>
      rw [if_pos hvalid, List.map_cons, List.nodup_cons] at hnodup
      intro heq'
      refine hnodup.1 ?_
      rw [hip, ← heq']
      exact List.mem_map_of_mem he
    | free hnone _ => exact hnone e (hrest e he)
    | evicted hnone _ _ => exact hnone e (hrest e he)
  rw [heq]
  refine ⟨?_, ?_, fun e he => ?_⟩
  · dsimp only
    rw [List.length_set]
    exact ht.length
  · rw [(hafter.map ArpEntry.ipv4).nodup_iff, List.map_cons, List.nodup_cons]
    refine ⟨fun hmem => ?_, hnodup.sublist (hsub.map _)⟩
    obtain ⟨e, he, heq'⟩ := List.mem_map.mp hmem
    exact hother e he heq'
  · rcases List.mem_cons.mp (hafter.mem_iff.mp he) with rfl | he
    · exact Recency.find_cons_self rfl
    · rw [Recency.find_cons_of_ne (hother e he).symm]
      exact ht.last e (hrest e he)

theorem run_induction {P : Updates → ArpTable → Prop} (hreset : P [] .reset)
    (hstore : ∀ h t u, stores u = true → P h t → P (u :: h) (t.upsert u.1 u.2))
    (us : Updates) : P (history us) (.run us) := by
  induction us using List.reverseRecOn with
  | nil => exact hreset
  | append_singleton us u ih =>
    rw [run_snoc, history_snoc]
    by_cases hu : stores u = true
    · rw [if_pos hu]
      exact hstore _ _ _ hu ih
    · have hsame : (ArpTable.run us).upsert u.1 u.2 = ArpTable.run us := by
        unfold stores at hu
        rw [Bool.not_eq_true, Bool.not_eq_false'] at hu
        unfold ArpTable.upsert
        rw [if_pos hu]
      rw [if_neg hu, hsame]
      exact ih

theorem truthful_run (us : Updates) : (ArpTable.run us).Truthful (history us) :=
  run_induction truthful_reset (fun _ _ _ hu ht => ht.upsert hu) us

-- ==== what is known

/-- The entries in use, the last store first. -/
structure ArpTable.Ordered (h : Updates) (es : List ArpEntry) (t : ArpTable) :
    Prop where
  perm : t.valid.Perm es
  bindings : es.map ArpEntry.binding = (Recency.recents h).take arpTableCap

/-- The stamps are in that order, and none of them has been given twice. -/
structure ArpTable.Aged (h : Updates) (t : ArpTable) (es : List ArpEntry) : Prop
    extends t.Ordered h es where
  stamp : t.stamp = (h.length + 1) % 2 ^ 64
  older : es.Pairwise fun e e' => e'.stamp < e.stamp
  given : ∀ e ∈ es, e.stamp ≤ h.length

theorem recents_take_nodup :
    (((Recency.recents h).take arpTableCap).map Prod.fst).Nodup :=
  Recency.recents_nodup.sublist ((List.take_sublist ..).map _)

/-- The order of the entries behind a store. -/
theorem ArpTable.Aged.ordered {es : List ArpEntry} (ha : t.Aged h es)
    (ht : t.Truthful h) (hu : stores u = true) (hcount : h.length < 2 ^ 64) :
    ∃ es', es'.Sublist es ∧
      (t.upsert u.1 u.2).Ordered (u :: h) (t.fresh u :: es') := by
  obtain ⟨i, old, hold, hreplaces, heq⟩ := upsert_cases ht.length hu
  obtain ⟨rest, hbefore, hafter⟩ :=
    @valid_set t i old (t.fresh u) ((t.stamp + 1) % 2 ^ 64) hold rfl
  rw [← heq] at hafter
  have hkeys : es.map ArpEntry.ipv4
      = ((Recency.recents h).take arpTableCap).map Prod.fst := by
    rw [← ha.bindings, List.map_map]
    rfl
  have hmem : ∀ {ipv4}, (∀ e ∈ t.valid, e.ipv4 ≠ ipv4) →
      ipv4 ∉ ((Recency.recents h).take arpTableCap).map Prod.fst := by
    intro ipv4 hnone hmem
    rw [← hkeys] at hmem
    obtain ⟨e, he, hek⟩ := List.mem_map.mp hmem
    exact hnone e (ha.perm.mem_iff.mpr he) hek
  have hlength : es.length = min arpTableCap (Recency.recents h).length := by
    rw [← List.length_map (f := ArpEntry.binding), ha.bindings, List.length_take]
  have hrecents : Recency.recents (u :: h) = Recency.touch u (Recency.recents h) :=
    rfl
  cases hreplaces with
  | own hvalid hip =>
    -- The entry of the address moves up.
    rw [if_pos hvalid] at hbefore
    have hin : old ∈ es := ha.perm.mem_iff.mp (hbefore.mem_iff.mpr List.mem_cons_self)
    obtain ⟨pre, post, hsplit⟩ := List.append_of_mem hin
    have hperm : rest.Perm (pre ++ post) := by
      have hcons := (hbefore.symm.trans ha.perm).trans (hsplit ▸ List.perm_middle)
      exact hcons.cons_inv
    refine ⟨pre ++ post, ?_, hafter.trans (hperm.cons _), ?_⟩
    · rw [hsplit]
      exact List.Sublist.append_left (List.sublist_cons_self ..) pre
    · have hkey : u.1 ∈ ((Recency.recents h).take arpTableCap).map Prod.fst := by
        rw [← hkeys, ← hip]
        exact List.mem_map_of_mem hin
      rw [hrecents, Recency.take_touch_of_mem Recency.recents_nodup hkey, ← ha.bindings]
      unfold Recency.touch
      rw [List.map_cons]
      congr 1
      have hnodup := @recents_take_nodup h
      rw [← hkeys, hsplit, List.map_append, List.map_cons] at hnodup
      obtain ⟨-, hpost, hapart⟩ := List.nodup_append.mp hnodup
      rw [hsplit, List.map_append, List.map_append, List.map_cons,
        List.filter_append, List.filter_cons_of_neg (by
          rw [decide_eq_true_iff, not_not]; exact hip)]
      have hkeep : ∀ es' : List ArpEntry, (∀ e ∈ es', e.ipv4 ≠ old.ipv4) →
          (es'.map ArpEntry.binding).filter (fun e => e.1 ≠ u.1)
            = es'.map ArpEntry.binding := by
        intro es' hes'
        rw [List.filter_eq_self]
        intro e he
        obtain ⟨e', he', rfl⟩ := List.mem_map.mp he
        refine decide_eq_true fun heq' => hes' e' he' ?_
        rw [hip]
        exact heq'
      rw [hkeep pre fun e he heq' => hapart e.ipv4 (List.mem_map_of_mem he)
          old.ipv4 List.mem_cons_self heq',
        hkeep post fun e he heq' => (List.nodup_cons.mp hpost).1
          (heq' ▸ List.mem_map_of_mem he)]
  | free hnone hinvalid =>
    -- There is room.
    rw [if_neg (by rw [hinvalid]; nofun)] at hbefore
    have hshort : es.length < arpTableCap := by
      rw [← ha.perm.length_eq, ← ht.length]
      refine List.length_filter_lt_length_iff_exists.mpr ⟨old, ?_, ?_⟩
      · exact List.mem_of_getElem? hold
      · rw [hinvalid]
        nofun
    refine ⟨es, .refl _, hafter.trans ((hbefore.symm.trans ha.perm).cons _), ?_⟩
    rw [hrecents, Recency.take_touch_of_not_mem (hmem hnone), ← ha.bindings, List.map_cons]
    symm
    refine List.take_of_length_le ?_
    rw [List.length_cons, List.length_map]
    exact hshort
  | evicted hnone hall hi =>
    -- The one with the lowest stamp is the last one.
    have hentries : t.valid = t.entries := List.filter_eq_self.mpr hall
    have hfull : es.length = arpTableCap := by
      rw [← ha.perm.length_eq, hentries, ht.length]
    have hne : es ≠ [] := fun hnil => by
      rw [hnil] at hfull
      cases hfull
    obtain ⟨pre, last, hsplit⟩ : ∃ pre last, es = pre ++ [last] :=
      ⟨_, _, (List.dropLast_append_getLast hne).symm⟩
    have holder := ha.older
    rw [hsplit, List.pairwise_append] at holder
    have hpre : pre.length = 15 := by
      rw [hsplit, List.length_append] at hfull
      exact Nat.succ.inj hfull
    obtain ⟨first, hfirst⟩ := List.exists_mem_of_length_pos (show 0 < pre.length by omega)
    have hlow : last.stamp < 2 ^ 64 - 1 := by
      have hlt := holder.2.2 first hfirst last List.mem_cons_self
      have hgiven := ha.given first (hsplit ▸ List.mem_append_left _ hfirst)
      omega
    have hlast : last ∈ t.entries := by
      rw [← hentries]
      exact ha.perm.mem_iff.mpr (hsplit ▸ List.mem_append_right _ List.mem_cons_self)
    obtain ⟨old', hold', hmin⟩ := oldestIndex_spec hlast hlow
    rw [← hi] at hold'
    obtain rfl := Option.some.inj (hold.symm.trans hold')
    have hvictim : old = last := by
      have hin : old ∈ es := by
        rw [← ha.perm.mem_iff, hentries]
        exact List.mem_of_getElem? hold
      rw [hsplit, List.mem_append] at hin
      rcases hin with hin | hin
      · have hlt := holder.2.2 old hin last List.mem_cons_self
        exact absurd (hmin last hlast) (Nat.not_le.mpr hlt)
      · exact List.mem_singleton.mp hin
    have hvalid : old.valid = true := hall old (List.mem_of_getElem? hold)
    rw [if_pos hvalid] at hbefore
    refine ⟨pre, hsplit ▸ List.sublist_append_left .., hafter.trans ?_, ?_⟩
    · refine List.Perm.cons _ ?_
      have hcons : (old :: rest).Perm (old :: pre) := by
        refine (hbefore.symm.trans ha.perm).trans ?_
        rw [hsplit, hvictim]
        exact List.perm_append_singleton ..
      exact hcons.cons_inv
    · rw [hrecents, Recency.take_touch_of_not_mem (hmem hnone), ← ha.bindings, hsplit,
        List.map_append, List.map_cons]
      show _ = u :: (pre.map ArpEntry.binding ++ [last.binding]).take 15
      rw [List.take_append_of_le_length (by rw [List.length_map]; omega),
        List.take_of_length_le (by rw [List.length_map]; omega)]
      rfl

theorem aged_reset : ArpTable.reset.Aged [] [] := by
  have hvalid : ArpTable.reset.valid = [] := by decide
  refine ⟨⟨?_, rfl⟩, rfl, .nil, nofun⟩
  rw [hvalid]

theorem ArpTable.Aged.upsert {es : List ArpEntry} (ha : t.Aged h es)
    (ht : t.Truthful h) (hu : stores u = true) (hcount : h.length + 1 < 2 ^ 64) :
    ∃ es', (t.upsert u.1 u.2).Aged (u :: h) es' := by
  obtain ⟨es', hsub, hordered⟩ := ha.ordered ht hu (by omega)
  obtain ⟨i, old, -, -, heq⟩ := upsert_cases ht.length hu
  have hstamp : t.stamp = h.length + 1 := by
    rw [ha.stamp, Nat.mod_eq_of_lt hcount]
  have hfresh : (t.fresh u).stamp = h.length + 1 := hstamp
  refine ⟨t.fresh u :: es', hordered, ?_, ?_, fun e he => ?_⟩
  · rw [heq, List.length_cons, ← hstamp]
  · refine List.pairwise_cons.mpr ⟨fun e he => ?_, ha.older.sublist hsub⟩
    rw [hfresh]
    exact Nat.lt_succ_of_le (ha.given e (hsub.subset he))
  · rw [List.length_cons]
    rcases List.mem_cons.mp he with rfl | he
    · exact Nat.le_of_eq hfresh
    · exact Nat.le_succ_of_le (ha.given e (hsub.subset he))

theorem ordered_run (us : Updates) (hcount : (history us).length ≤ 2 ^ 64) :
    ∃ es, (ArpTable.run us).Ordered (history us) es := by
  refine (run_induction (P := fun h t => t.Truthful h ∧
    (h.length < 2 ^ 64 → ∃ es, t.Aged h es) ∧
    (h.length ≤ 2 ^ 64 → ∃ es, t.Ordered h es))
    ⟨truthful_reset, fun _ => ⟨[], aged_reset⟩, fun _ => ⟨[], aged_reset.toOrdered⟩⟩
    (fun h t u hu ht => ⟨ht.1.upsert hu, fun hcount => ?_, fun hcount => ?_⟩)
    us).2.2 hcount
  · obtain ⟨es, ha⟩ := ht.2.1 (Nat.lt_of_succ_lt hcount)
    exact ha.upsert ht.1 hu hcount
  · obtain ⟨es, ha⟩ := ht.2.1 (Nat.lt_of_succ_le hcount)
    obtain ⟨es', -, hordered⟩ := ha.ordered ht.1 hu (Nat.lt_of_succ_le hcount)
    exact ⟨_, hordered⟩

theorem ArpTable.Ordered.lookup {es : List ArpEntry} (ho : t.Ordered h es) :
    t.lookup ipv4 = Recency.find ipv4 ((Recency.recents h).take arpTableCap) := by
  have hperm := ho.perm.map ArpEntry.binding
  rw [lookup_eq, ← ho.bindings]
  refine Recency.find_perm ?_ hperm
  rw [(hperm.map Prod.fst).nodup_iff, ho.bindings]
  exact recents_take_nodup

theorem ArpTable.Truthful.lookup {mac : Mac} (ht : t.Truthful h)
    (hlookup : t.lookup ipv4 = some mac) : Recency.find ipv4 h = some mac := by
  unfold ArpTable.lookup at hlookup
  obtain ⟨e, hfound, rfl⟩ := Option.map_eq_some_iff.mp hlookup
  have hcond := List.find?_some hfound
  rw [Bool.and_eq_true, decide_eq_true_iff] at hcond
  have hlast := ht.last e (List.mem_filter.mpr
    ⟨List.mem_of_find?_eq_some hfound, hcond.1⟩)
  rw [hcond.2] at hlast
  exact hlast

/-- Behind any updates no address has two entries, and a hardware address that
the table answers with is the one stored last for the address. As long as no
stamp has been given twice, it answers exactly if fewer than 16 other
addresses have been stored since. -/
theorem neighbours_of_run (us : Updates) :
    ((ArpTable.run us).valid.map ArpEntry.ipv4).Nodup ∧
      (∀ ipv4 mac, (ArpTable.run us).lookup ipv4 = some mac →
        Recency.find ipv4 (history us) = some mac) ∧
      ((history us).length ≤ 2 ^ 64 → ∀ ipv4,
        (ArpTable.run us).lookup ipv4
          = if (Recency.since ipv4 (history us)).card < arpTableCap then
              Recency.find ipv4 (history us)
            else none) := by
  refine ⟨(truthful_run us).nodup, fun ipv4 mac => (truthful_run us).lookup,
    fun hcount ipv4 => ?_⟩
  obtain ⟨es, hordered⟩ := ordered_run us hcount
  rw [hordered.lookup, Recency.find_take_recents]

-- ==== stamp 0 again

/-- A hardware address. -/
def someMac : Mac := ⟨[2, 0, 0, 0, 0, 1], rfl⟩

theorem run_again (n : Nat) :
    ArpTable.run (List.replicate (n + 1) (1, someMac))
      = ⟨⟨true, 1, someMac, (n + 1) % 2 ^ 64⟩ :: List.replicate 15 ArpEntry.zero,
        (n + 2) % 2 ^ 64⟩ := by
  induction n with
  | zero => rfl
  | succ n ih =>
    rw [List.replicate_succ', run_snoc, ih]
    show ArpTable.mk _ _ = _
    congr 1
    show ((n + 2) % 2 ^ 64 + 1) % 2 ^ 64 = (n + 3) % 2 ^ 64
    omega

/-- The updates that follow: of 16 other addresses, the last of which gets
stamp 0, and of one more. -/
def furtherStores : Updates :=
  (List.range 17).map fun i => (UInt32.ofNat (i + 2), someMac)

theorem neighbour_evicted :
    ∃ us : Updates, ∃ ipv4, (Recency.since ipv4 (history us)).card < arpTableCap ∧
      Recency.find ipv4 (history us) = some someMac ∧
        (ArpTable.run us).lookup ipv4 = none := by
  have hhistory : ∀ us : Updates, history (us ++ furtherStores)
      = [(18, someMac)] ++ (17, someMac) ::
        (furtherStores.reverse.drop 2 ++ history us) := by
    intro us
    unfold history
    rw [List.filter_append, List.reverse_append]
    have hfurther : (furtherStores.filter stores).reverse
        = (18, someMac) :: (17, someMac) :: furtherStores.reverse.drop 2 := by
      decide
    rw [hfurther]
    rfl
  have hother : ∀ e ∈ [((18 : UInt32), someMac)], e.1 ≠ 17 := by decide
  refine ⟨List.replicate (2 ^ 64 - 17 + 1) (1, someMac) ++ furtherStores, 17,
    ?_, ?_, ?_⟩
  · rw [hhistory, Recency.since_split hother]
    decide
  · rw [hhistory]
    exact Recency.find_split hother
  · have hrun : ArpTable.run
        (List.replicate (2 ^ 64 - 17 + 1) (1, someMac) ++ furtherStores)
        = furtherStores.foldl (fun t u => t.upsert u.1 u.2)
          (ArpTable.run (List.replicate (2 ^ 64 - 17 + 1) (1, someMac))) :=
      List.foldl_append ..
    rw [hrun, run_again]
    decide +kernel

/-- Sixteen addresses have been stored since the first one. -/
theorem neighbours_of_run_full :
    (ArpTable.run ((List.range 17).map fun i =>
      (UInt32.ofNat (i + 1), someMac))).lookup 1 = none := by
  have hknown := (neighbours_of_run ((List.range 17).map fun i =>
    (UInt32.ofNat (i + 1), someMac))).2.2 (by decide) 1
  rw [hknown]
  exact if_neg (by decide)

end neighbours

end Clks.Net
