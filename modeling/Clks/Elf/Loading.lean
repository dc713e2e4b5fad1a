/-
The loading of an ELF image (`kernel/runtime/elf64.c`).

`load_faithful`: whatever the string of bytes is, `load` ends without a
fault, and so do the checks before it and the lookup of symbols after it.
If it succeeds, the block is the overlay of the loadable segments, in the
order of the program headers, over zero bytes, and then the words of the
segments that are not executable are moved, one after the other, where
their value is an address of the image.
-/
import Clks.Elf.Symbols
import Clks.Lib.Bytes

namespace Clks.Elf

open Reads

-- ==== the purpose

/-- The program headers of an image. -/
def headers (image : Source) (eh : Ehdr) : List Phdr :=
  (List.range' 0 eh.phnum.toNat).filterMap fun i =>
    (phdrAt image.val (eh.phoff.toNat + i * 56)).toOption

/-- A segment that is loaded. -/
def Phdr.loadable (ph : Phdr) : Bool := ph.type == PT_LOAD && ph.memsz != 0

/-- The segments that are loaded. -/
def segmentsOf (image : Source) (eh : Ehdr) : List Phdr :=
  (headers image eh).filter Phdr.loadable

/-- The segments lie between two addresses, and reach both. -/
structure Spans (segs : List Phdr) (lo hi : Nat) : Prop where
  least : IsLeast {a | ∃ ph ∈ segs, a = ph.vaddr.toNat} lo
  greatest :
    IsGreatest {a | ∃ ph ∈ segs, a = ph.vaddr.toNat + ph.memsz.toNat} hi

/-- The bytes of the segments in the file, each over those before it, at
their addresses above `lo`. -/
def overlay (image : Source) (lo : Nat) (segs : List Phdr) : Bytes.Mem :=
  segs.foldl (fun m ph => Bytes.blit m (ph.vaddr.toNat - lo) ph.filesz.toNat
    fun k => image.val.getD (ph.offset.toNat + k) 0) fun _ => 0

/-- The aligned words of a segment. -/
def words (lo : Nat) (ph : Phdr) : List Nat :=
  (List.range' 0 (ph.filesz.toNat / 8)).map fun k =>
    ph.vaddr.toNat - lo + k * 8

/-- A word is moved, if its value is an address of the image. -/
def rebaseWord (mv : Move) (memory : List UInt8) (off : Nat) : List UInt8 :=
  match le64At memory off with
  | .error _ => memory
  | .ok value =>
    if mv.oldBase ≤ value ∧ value < mv.oldEnd then
      overwrite memory off (le64 (value + mv.delta))
    else memory

/-- Are the words of a segment moved? -/
def Phdr.rebased (ph : Phdr) : Bool := ph.flags &&& PF_X == 0

/-- What an image is loaded to. -/
structure Faithful (image : Source) (loaded : Loaded) (eh : Ehdr)
    (lo hi : UInt64) : Prop where
  header : ehdrAt image.val = .ok eh
  entry : loaded.entry = eh.entry
  spans : Spans (segmentsOf image eh) lo.toNat hi.toNat
  vaddrBase : loaded.imageVaddrBase = lo
  size : loaded.imageSize.toNat = hi.toNat - lo.toNat
  memory :
    let laid := (List.range loaded.imageSize.toNat).map
      (overlay image lo.toNat (segmentsOf image eh))
    let moved := ((segmentsOf image eh).filter Phdr.rebased).flatMap
      (words lo.toNat)
    loaded.memory =
      if eh.type = ET_EXEC ∧ loaded.imageBase ≠ lo then
        moved.foldl (rebaseWord ⟨lo, hi, loaded.imageBase - lo⟩) laid
      else laid
  changed : ∀ i < loaded.imageSize.toNat,
    loaded.memory[i]?
        ≠ some (overlay image lo.toNat (segmentsOf image eh) i) →
      ∃ ph ∈ segmentsOf image eh, ph.rebased = true ∧
        ∃ off ∈ words lo.toNat ph, off ≤ i ∧ i < off + 8

-- ==== the loop over headers

variable {σ : Type} {image : Source} {eh : Ehdr}

/-- A body, over a list of headers. -/
def eachOf (body : σ → Phdr → Checked (Option σ)) :
    List Phdr → σ → Checked (Option σ)
  | [], s => return some s
  | ph :: phs, s => do
    match ← body s ph with
    | none => return none
    | some s => eachOf body phs s

/-- The program headers lie in the file. -/
structure TableInside (image : Source) (eh : Ehdr) : Prop where
  phentsize : eh.phentsize.toUInt64 = PHDR_SIZE
  inside : eh.phoff.toNat + eh.phnum.toNat * 56 ≤ image.val.length

theorem phdrAt_safe {off : Nat} (h : off + 56 ≤ image.val.length) :
    Safe (phdrAt image.val off) :=
  .bind (le32At_safe (by omega)) fun _ =>
  .bind (le32At_safe (by omega)) fun _ =>
  .bind (le64At_safe (by omega)) fun _ =>
  .bind (le64At_safe (by omega)) fun _ =>
  .bind (le64At_safe (by omega)) fun _ =>
  .bind (le64At_safe (by omega)) fun _ => .pure _

theorem eachFrom_eq (htable : TableInside image eh)
    (body : σ → Phdr → Checked (Option σ)) (n : Nat) {i : UInt16}
    (hi : i.toNat + n = eh.phnum.toNat) (s : σ) :
    eachFrom image eh body (n + 1) i s
      = eachOf body ((List.range' i.toNat n).filterMap fun i =>
          (phdrAt image.val (eh.phoff.toNat + i * 56)).toOption) s := by
  induction n generalizing i s with
  | zero =>
    unfold eachFrom
    rw [if_neg]
    · rfl
    · rw [UInt16.lt_iff_toNat_lt]
      omega
  | succ n ih =>
    have hphnum := eh.phnum.toNat_lt
    have hlimit := image.property
    have hinside := htable.inside
    have hnext : (i + 1).toNat = i.toNat + 1 := by
      rw [UInt16.toNat_add]
      exact Nat.mod_eq_of_lt (by show i.toNat + 1 < _; omega)
    have hoff : (eh.phoff + i.toUInt64 * eh.phentsize.toUInt64).toNat
        = eh.phoff.toNat + i.toNat * 56 := by
      rw [htable.phentsize, entry_toNat, UInt16.toNat_toUInt64]
      · rfl
      · rw [UInt16.toNat_toUInt64]
        show _ + _ * 56 < _
        omega
    obtain ⟨ph, hph⟩ : Safe (phdrAt image.val
        (eh.phoff.toNat + i.toNat * 56)) := phdrAt_safe (by omega)
    rw [List.range'_succ, List.filterMap_cons_some (b := ph) (by rw [hph]; rfl)]
    unfold eachFrom
    rw [if_pos (UInt16.lt_iff_toNat_lt.mpr (by omega)), hoff, hph]
    show (body s ph >>= _) = (body s ph >>= _)
    congr 1
    funext r
    cases r with
    | none => rfl
    | some s =>
      have hrest := ih (i := i + 1) (by omega) s
      rw [hnext] at hrest
      exact hrest

theorem eachPhdr_eq (htable : TableInside image eh)
    (body : σ → Phdr → Checked (Option σ)) (s : σ) :
    eachPhdr image eh body s = eachOf body (headers image eh) s :=
  eachFrom_eq htable body eh.phnum.toNat (Nat.zero_add _) s

theorem eachOf_gives {body : σ → Phdr → Checked (Option σ)}
    {I : List Phdr → σ → Prop} {all : List Phdr} {s : σ} (h0 : I [] s)
    (hstep : ∀ done ph rest, all = done ++ ph :: rest → ∀ s, I done s →
      Gives (fun r => ∀ s', r = some s' → I (done ++ [ph]) s') (body s ph)) :
    Gives (fun r => ∀ s', r = some s' → I all s') (eachOf body all s) := by
  suffices h : ∀ rest done s, all = done ++ rest → I done s →
      Gives (fun r => ∀ s', r = some s' → I all s') (eachOf body rest s) from
    h all [] s rfl h0
  intro rest
  induction rest with
  | nil =>
    intro done s hall hs
    refine .pure fun s' h => ?_
    obtain rfl := Option.some.inj h
    rwa [hall, List.append_nil]
  | cons ph rest ih =>
    intro done s hall hs
    refine (hstep done ph rest hall s hs).bind fun r hr => ?_
    cases r with
    | none => exact .pure fun s' h => nomatch h
    | some s =>
      refine ih (done ++ [ph]) s ?_ (hr s rfl)
      rw [List.append_assoc]
      exact hall

-- ==== the checks

/-- What is known of an image that is valid. -/
structure Valid (image : Source) (eh : Ehdr) : Prop where
  header : ehdrAt image.val = .ok eh
  table : TableInside image eh
  segments : ∀ ph ∈ headers image eh, ph.type = PT_LOAD →
    ph.filesz.toNat ≤ ph.memsz.toNat ∧
      ph.offset.toNat + ph.filesz.toNat ≤ image.val.length

theorem checkPhdr_gives (ph : Phdr) :
    Gives (fun r => ∀ s', r = some s' → ph.type = PT_LOAD →
      ph.filesz.toNat ≤ ph.memsz.toNat ∧
        ph.offset.toNat + ph.filesz.toNat ≤ image.val.length)
      (checkPhdr image () ph) := by
  unfold checkPhdr
  refine .ite (fun hload => .pure fun _ _ h => absurd h hload) fun _ =>
    .ite (fun _ => .pure fun _ h => nomatch h) fun hsizes =>
    .ite (fun hrange => .pure fun _ _ _ => ?_)
      fun _ => .pure fun _ h => nomatch h
  have hrange := rangeOk_le hrange
  rw [image.size_toNat] at hrange
  exact ⟨UInt64.le_iff_toNat_le.mp (UInt64.not_lt.mp hsizes), hrange⟩

theorem validate_gives (image : Source) :
    Gives (fun r => r = true → ∃ eh, Valid image eh) (validate image) := by
  unfold validate
  refine .ite (fun _ => .pure fun h => nomatch h) fun hsize => ?_
  have hsize : 64 ≤ image.val.length := by
    rw [← image.size_toNat]
    exact UInt64.le_iff_toNat_le.mp (UInt64.not_lt.mp hsize)
  obtain ⟨eh, heq⟩ := ehdrAt_safe hsize
  rw [heq]
  refine Gives.ite (fun hok => Gives.ite (fun hrange => ?_)
    fun _ => .pure fun h => nomatch h) fun _ => .pure fun h => nomatch h
  have hphentsize := eq_of_beq (Bool.and_eq_true_iff.mp hok).2
  rw [hphentsize] at hrange
  have hrange := rangeOk_le hrange
  have hbytes : (eh.phnum.toUInt64 * PHDR_SIZE).toNat
      = eh.phnum.toNat * 56 := by
    have hphnum := eh.phnum.toNat_lt
    rw [UInt64.toNat_mul, UInt16.toNat_toUInt64]
    exact Nat.mod_eq_of_lt (by show _ * 56 < _; omega)
  rw [hbytes, image.size_toNat] at hrange
  have htable : TableInside image eh := ⟨hphentsize, hrange⟩
  rw [eachPhdr_eq htable]
  have hchecked := @eachOf_gives Unit (checkPhdr image)
    (fun done _ => ∀ ph ∈ done, ph.type = PT_LOAD →
      ph.filesz.toNat ≤ ph.memsz.toNat ∧
        ph.offset.toNat + ph.filesz.toNat ≤ image.val.length)
    (headers image eh) () (fun _ h => nomatch h)
    fun done ph rest _ _ hdone => (checkPhdr_gives ph).mono fun r hr s' hs => by
      intro ph' hph'
      rcases List.mem_append.mp hph' with hph' | hph'
      · exact hdone ph' hph'
      · rw [List.mem_singleton.mp hph']
        exact hr s' hs
  obtain ⟨r, hr, hsegments⟩ := hchecked
  rw [hr]
  refine .pure fun hsome => ⟨eh, heq, htable, ?_⟩
  obtain ⟨s', hs'⟩ := Option.isSome_iff_exists.mp hsome
  exact hsegments s' hs'

theorem inspect_safe (image : Source) : Safe (inspect image) := by
  obtain ⟨valid, heq, hvalid⟩ := validate_gives image
  unfold inspect
  rw [heq]
  cases valid with
  | false => exact .pure none
  | true =>
    obtain ⟨eh, heh⟩ := hvalid rfl
    show Safe (ehdrAt image.val >>= _)
    rw [heh.header]
    show Safe (eachPhdr image eh countPhdr _)
    rw [eachPhdr_eq heh.table]
    refine (@eachOf_gives Info countPhdr (fun _ _ => True) _ _ trivial
      fun done ph rest _ info _ => ?_).safe
    unfold countPhdr
    exact .ite (fun _ => .pure fun _ _ => trivial)
      fun _ => .pure fun _ _ => trivial

-- ==== the bounds

/-- The bounds over some headers. -/
def Bounded (phs : List Phdr) (s : Bounds) : Prop :=
  s.loadCount.toNat = (phs.filter Phdr.loadable).length ∧
    ((phs.filter Phdr.loadable) ≠ [] →
      Spans (phs.filter Phdr.loadable) s.minVaddr.toNat s.maxVaddrEnd.toNat)

theorem loadable_iff {ph : Phdr} :
    ph.loadable = false ↔ ph.type ≠ PT_LOAD ∨ ph.memsz = 0 := by
  unfold Phdr.loadable
  rw [Bool.and_eq_false_iff]
  simp only [beq_eq_false_iff_ne, bne_eq_false_iff_eq]

theorem Spans.snoc {segs : List Phdr} {lo hi : Nat} (h : Spans segs lo hi)
    (ph : Phdr) : Spans (segs ++ [ph]) (min lo ph.vaddr.toNat)
      (max hi (ph.vaddr.toNat + ph.memsz.toNat)) := by
  have hmem : ∀ f : Phdr → Nat, {a | ∃ p ∈ segs ++ [ph], a = f p}
      = insert (f ph) {a | ∃ p ∈ segs, a = f p} := by
    intro f
    ext a
    simp only [List.mem_append, List.mem_singleton, Set.mem_ofPred_eq,
      Set.mem_insert_iff]
    constructor
    · rintro ⟨p, hp | rfl, rfl⟩
      · exact .inr ⟨p, hp, rfl⟩
      · exact .inl rfl
    · rintro (rfl | ⟨p, hp, rfl⟩)
      · exact ⟨ph, .inr rfl, rfl⟩
      · exact ⟨p, .inl hp, rfl⟩
  constructor
  · rw [hmem fun ph => ph.vaddr.toNat, Nat.min_comm]
    exact h.least.insert _
  · rw [hmem fun ph => ph.vaddr.toNat + ph.memsz.toNat, Nat.max_comm]
    exact h.greatest.insert _

theorem Spans.single (ph : Phdr) :
    Spans [ph] ph.vaddr.toNat (ph.vaddr.toNat + ph.memsz.toNat) := by
  constructor
  · refine ⟨⟨ph, List.mem_singleton_self _, rfl⟩, ?_⟩
    rintro a ⟨p, hp, rfl⟩
    rw [List.mem_singleton.mp hp]
  · refine ⟨⟨ph, List.mem_singleton_self _, rfl⟩, ?_⟩
    rintro a ⟨p, hp, rfl⟩
    rw [List.mem_singleton.mp hp]

theorem boundPhdr_gives {done : List Phdr} {s : Bounds} (ph : Phdr)
    (hdone : done.length < 65535) (hs : Bounded done s) :
    Gives (fun r => ∀ s', r = some s' → Bounded (done ++ [ph]) s')
      (boundPhdr s ph) := by
  obtain ⟨hcount, hspans⟩ := hs
  unfold boundPhdr
  apply Gives.ite
  · intro hskip
    refine .pure fun s' h => ?_
    obtain rfl := Option.some.inj h
    have hnil : [ph].filter Phdr.loadable = [] :=
      List.filter_cons_of_neg (by rw [loadable_iff.mpr hskip]; decide)
    unfold Bounded
    rw [List.filter_append, hnil, List.append_nil]
    exact ⟨hcount, hspans⟩
  · intro hload
    refine .ite (fun _ => .pure fun s' h => nomatch h) fun hend => .pure ?_
    intro s' h
    obtain rfl := Option.some.inj h
    have hone : [ph].filter Phdr.loadable = [ph] :=
      List.filter_cons_of_pos (by
        cases hl : ph.loadable with
        | true => rfl
        | false => exact absurd (loadable_iff.mp hl) hload)
    have hlen := List.length_filter_le Phdr.loadable done
    have hsegEnd : (ph.vaddr + ph.memsz).toNat
        = ph.vaddr.toNat + ph.memsz.toNat := by
      have hend := UInt64.le_iff_toNat_le.mp (UInt64.not_lt.mp hend)
      have h1 := ph.vaddr.toNat_lt
      have h2 := ph.memsz.toNat_lt
      rw [UInt64.toNat_add] at hend ⊢
      omega
    unfold Bounded
    rw [List.filter_append, hone]
    constructor
    · show (s.loadCount + 1).toNat = _
      rw [UInt16.toNat_add, List.length_append, List.length_singleton, hcount]
      exact Nat.mod_eq_of_lt (by show _ + 1 < _; omega)
    · intro _
      by_cases hnil : done.filter Phdr.loadable = []
      · have hzero : s.loadCount = 0 := by
          apply UInt16.toNat_inj.mp
          rw [hcount, hnil]
          rfl
        rw [if_pos (.inl hzero), if_pos (.inl hzero), hnil, List.nil_append,
          hsegEnd]
        exact .single ph
      · have hpos : s.loadCount ≠ 0 := by
          intro hzero
          rw [hzero] at hcount
          exact hnil (List.length_eq_zero_iff.mp hcount.symm)
        have hlo : (if s.loadCount = 0 ∨ ph.vaddr < s.minVaddr then ph.vaddr
            else s.minVaddr).toNat = min s.minVaddr.toNat ph.vaddr.toNat := by
          split_ifs with h
          · have hlt := UInt64.lt_iff_toNat_lt.mp (h.resolve_left hpos)
            omega
          · rw [not_or, UInt64.not_lt, UInt64.le_iff_toNat_le] at h
            omega
        have hhi : (if s.loadCount = 0 ∨ ph.vaddr + ph.memsz > s.maxVaddrEnd
            then ph.vaddr + ph.memsz else s.maxVaddrEnd).toNat
            = max s.maxVaddrEnd.toNat (ph.vaddr.toNat + ph.memsz.toNat) := by
          split_ifs with h
          · have hlt := UInt64.lt_iff_toNat_lt.mp (h.resolve_left hpos)
            omega
          · rw [not_or, UInt64.not_lt, UInt64.le_iff_toNat_le] at h
            omega
        rw [hlo, hhi]
        exact (hspans hnil).snoc ph

-- ==== the layout

theorem overwrite_map_range {b : List UInt8} {m : Bytes.Mem} {n o off len : Nat}
    (hin : off + len ≤ n) (hfrom : o + len ≤ b.length) :
    overwrite ((List.range n).map m) off ((b.drop o).take len)
      = (List.range n).map
          (Bytes.blit m off len fun k => b.getD (o + k) 0) := by
  have hlen : ((b.drop o).take len).length = len := by
    rw [List.length_take, List.length_drop]
    omega
  have hroom : off + ((b.drop o).take len).length
      ≤ ((List.range n).map m).length := by
    rw [hlen, List.length_map, List.length_range]
    exact hin
  apply List.ext_getElem?
  intro i
  by_cases hi : off ≤ i ∧ i < off + len
  · rw [overwrite_inside hroom hi.1 (by rw [hlen]; exact hi.2),
      List.getElem?_take_of_lt (by omega), List.getElem?_drop,
      List.getElem?_map, List.getElem?_range (by omega), Option.map_some,
      Bytes.blit_in hi.1 hi.2, List.getD_eq_getElem?_getD,
      List.getElem?_eq_getElem (by omega)]
    rfl
  · rw [overwrite_outside hroom (by omega), List.getElem?_map, List.getElem?_map]
    by_cases hn : i < n
    · rw [List.getElem?_range hn, Option.map_some, Option.map_some,
        Bytes.blit_out (by omega)]
    · rw [List.getElem?_eq_none (by rw [List.length_range]; omega)]
      rfl

/-- The record of a segment. -/
def Phdr.segment (lo : UInt64) (ph : Phdr) : Segment :=
  ⟨ph.vaddr - lo, ph.vaddr, ph.memsz, ph.filesz, ph.flags⟩

/-- The image, with some headers laid out. -/
def Laid (image : Source) (start : Loaded) (done : List Phdr) : Loaded :=
  { start with
    segments := (done.filter Phdr.loadable).map
      (Phdr.segment start.imageVaddrBase)
    memory := (List.range start.imageSize.toNat).map
      (overlay image start.imageVaddrBase.toNat
        (done.filter Phdr.loadable)) }

/-- A segment that lies in the block, at its address above `lo`. -/
structure Fits (image : Source) (lo span : UInt64) (ph : Phdr) : Prop where
  above : lo.toNat ≤ ph.vaddr.toNat
  inside : ph.vaddr.toNat - lo.toNat + ph.memsz.toNat ≤ span.toNat
  filesz : ph.filesz.toNat ≤ ph.memsz.toNat
  file : ph.offset.toNat + ph.filesz.toNat ≤ image.val.length

theorem Fits.offset {lo span : UInt64} {ph : Phdr} (h : Fits image lo span ph) :
    (ph.vaddr - lo).toNat = ph.vaddr.toNat - lo.toNat :=
  UInt64.toNat_sub_of_le _ _ (UInt64.le_iff_toNat_le.mpr h.above)

theorem layPhdr_eq {start : Loaded} {done : List Phdr} {ph : Phdr}
    (hfits : ph.loadable = true →
      Fits image start.imageVaddrBase start.imageSize ph)
    (hroom : ((done ++ [ph]).filter Phdr.loadable).length ≤ MAX_SEGMENTS) :
    layPhdr image (Laid image start done) ph
      = .ok (some (Laid image start (done ++ [ph]))) := by
  unfold layPhdr
  cases hload : ph.loadable with
  | false =>
    have hnil : [ph].filter Phdr.loadable = [] :=
      List.filter_cons_of_neg (by rw [hload]; decide)
    rw [if_pos (loadable_iff.mp hload)]
    unfold Laid
    rw [List.filter_append, hnil, List.append_nil]
    rfl
  | true =>
    have hone : [ph].filter Phdr.loadable = [ph] :=
      List.filter_cons_of_pos hload
    have hskip : ¬ (ph.type ≠ PT_LOAD ∨ ph.memsz = 0) := by
      rw [← loadable_iff, hload]
      decide
    have hfit := hfits hload
    have hinside := hfit.inside
    have hfilesz := hfit.filesz
    rw [List.filter_append, hone, List.length_append,
      List.length_singleton] at hroom
    have hcount : (Laid image start done).segments.length < MAX_SEGMENTS := by
      show (List.map _ _).length < _
      rw [List.length_map]
      omega
    have hoff := hfit.offset
    have hin : ¬ (ph.vaddr - start.imageVaddrBase > start.imageSize ∨
        ph.memsz > start.imageSize - (ph.vaddr - start.imageVaddrBase)) := by
      have hle : ph.vaddr - start.imageVaddrBase ≤ start.imageSize := by
        rw [UInt64.le_iff_toNat_le, hoff]
        omega
      rw [not_or, UInt64.not_lt, UInt64.not_lt]
      refine ⟨hle, ?_⟩
      rw [UInt64.le_iff_toNat_le, UInt64.toNat_sub_of_le _ _ hle, hoff]
      omega
    obtain ⟨bytes, hbytes, hval⟩ := blockAt_gives hfit.file
    rw [if_neg hskip, if_neg (Nat.not_le.mpr hcount)]
    show (if ph.vaddr - start.imageVaddrBase > start.imageSize ∨
        ph.memsz > start.imageSize - (ph.vaddr - start.imageVaddrBase)
      then _ else _) = _
    rw [if_neg hin, hbytes]
    show (putAt (List.map _ _) (ph.vaddr - start.imageVaddrBase).toNat bytes.val
      >>= _) = _
    rw [putAt_eq, hval, overwrite_map_range, hoff]
    · unfold Laid overlay
      rw [List.filter_append, hone, List.map_append, List.foldl_append]
      rfl
    · omega
    · exact hfit.file
    · rw [bytes.property, List.length_map, List.length_range]
      omega

theorem eachOf_layPhdr {start : Loaded} {all : List Phdr}
    (hstart : Laid image start [] = start)
    (hfits : ∀ ph ∈ all, ph.loadable = true →
      Fits image start.imageVaddrBase start.imageSize ph)
    (hroom : (all.filter Phdr.loadable).length ≤ MAX_SEGMENTS) :
    eachOf (layPhdr image) all start = .ok (some (Laid image start all)) := by
  suffices h : ∀ rest done, all = done ++ rest →
      eachOf (layPhdr image) rest (Laid image start done)
        = .ok (some (Laid image start all)) by
    rw [← hstart]
    have hall := h all [] rfl
    rw [hstart] at hall ⊢
    exact hall
  intro rest
  induction rest with
  | nil =>
    intro done hall
    rw [hall, List.append_nil]
    rfl
  | cons ph rest ih =>
    intro done hall
    have hmem : ph ∈ all := by
      rw [hall]
      exact List.mem_append_right _ List.mem_cons_self
    unfold eachOf
    rw [layPhdr_eq (hfits ph hmem)]
    · exact ih (done ++ [ph]) (by rw [List.append_assoc]; exact hall)
    · refine Nat.le_trans ?_ hroom
      rw [hall, List.append_cons done ph rest, List.filter_append (done ++ [ph]),
        List.length_append]
      omega

-- ==== rebasing

variable {mv : Move} {memory : List UInt8} {off : Nat}

theorem length_rebaseWord (h : off + 8 ≤ memory.length) :
    (rebaseWord mv memory off).length = memory.length := by
  unfold rebaseWord
  cases le64At memory off with
  | error e => rfl
  | ok value =>
    show (if _ then _ else _ : List UInt8).length = _
    split_ifs with hmoved
    · exact length_overwrite h
    · rfl

theorem rebaseSlot_eq {slot : UInt64}
    (h : slot.toNat + 8 ≤ memory.length) :
    rebaseSlot mv memory slot = .ok (rebaseWord mv memory slot.toNat) := by
  obtain ⟨value, hvalue⟩ := le64At_safe h
  unfold rebaseSlot rebaseWord
  rw [hvalue]
  show (if _ then _ else _ : Checked _) = .ok (if _ then _ else _)
  by_cases hmoved : mv.oldBase ≤ value ∧ value < mv.oldEnd
  · rw [if_pos hmoved, if_pos hmoved]
    exact putAt_eq h
  · rw [if_neg hmoved, if_neg hmoved]
    rfl

theorem length_foldl_rebaseWord {offs : List Nat}
    (h : ∀ off ∈ offs, off + 8 ≤ memory.length) :
    (offs.foldl (rebaseWord mv) memory).length = memory.length := by
  induction offs generalizing memory with
  | nil => rfl
  | cons off offs ih =>
    have hoff := h off List.mem_cons_self
    have hlen := @length_rebaseWord mv memory off hoff
    rw [List.foldl_cons, ih, hlen]
    intro off' hoff'
    rw [hlen]
    exact h off' (List.mem_cons_of_mem _ hoff')

theorem rebaseScan_eq {base scanLen : UInt64} (n : Nat) {j : Nat} {off : UInt64}
    (hoff : off.toNat = j * 8) (hscan : scanLen.toNat = (j + n) * 8)
    (hin : base.toNat + scanLen.toNat ≤ memory.length)
    (hlimit : memory.length < 2 ^ 64) :
    rebaseScan mv base scanLen (n + 1) off memory
      = .ok (((List.range' j n).map fun k => base.toNat + k * 8).foldl
          (rebaseWord mv) memory) := by
  induction n generalizing j off memory with
  | zero =>
    unfold rebaseScan
    rw [if_neg]
    · rfl
    · rw [UInt64.lt_iff_toNat_lt]
      omega
  | succ n ih =>
    have hslot : (base + off).toNat = base.toNat + j * 8 := by
      rw [UInt64.toNat_add, hoff]
      exact Nat.mod_eq_of_lt (by omega)
    have hnext : (off + 8).toNat = (j + 1) * 8 := by
      rw [UInt64.toNat_add, hoff]
      show (_ + 8) % _ = _
      omega
    have hword : base.toNat + j * 8 + 8 ≤ memory.length := by omega
    have hlen := @length_rebaseWord mv memory _ hword
    unfold rebaseScan
    rw [if_pos (UInt64.lt_iff_toNat_lt.mpr (by omega)),
      rebaseSlot_eq (by rw [hslot]; exact hword), hslot]
    show rebaseScan mv base scanLen (n + 1) (off + 8) _ = _
    rw [ih hnext (by omega) (by rw [hlen]; exact hin)
      (by rw [hlen]; exact hlimit), List.range'_succ]
    rfl

theorem rebaseSegment_eq {lo span : UInt64} {ph : Phdr}
    (hfits : Fits image lo span ph) (hlen : memory.length = span.toNat) :
    rebaseSegment mv memory (ph.segment lo)
      = .ok (([ph].filter Phdr.rebased).flatMap (words lo.toNat)
          |>.foldl (rebaseWord mv) memory) := by
  have hoff := hfits.offset
  have hin := hfits.inside
  have hfilesz := hfits.filesz
  have hspan := span.toNat_lt
  unfold rebaseSegment
  by_cases hexec : ph.flags &&& PF_X ≠ 0
  · have hnil : [ph].filter Phdr.rebased = [] :=
      List.filter_cons_of_neg (by
        unfold Phdr.rebased
        rw [beq_iff_eq]
        exact hexec)
    rw [hnil]
    exact if_pos hexec
  · have hone : [ph].filter Phdr.rebased = [ph] :=
      List.filter_cons_of_pos (by
        unfold Phdr.rebased
        rw [beq_iff_eq]
        exact not_not.mp hexec)
    rw [hone, List.flatMap_cons, List.flatMap_nil, List.append_nil]
    refine (if_neg hexec).trans ?_
    unfold words
    show (if ph.filesz < 8 then _ else _) = _
    by_cases hshort : ph.filesz < 8
    · have hlt : ph.filesz.toNat < 8 := UInt64.lt_iff_toNat_lt.mp hshort
      rw [if_pos hshort, Nat.div_eq_of_lt hlt]
      rfl
    · have hmod : (ph.filesz % 8).toNat = ph.filesz.toNat % 8 :=
        UInt64.toNat_mod ..
      have hscan : (ph.filesz - ph.filesz % 8).toNat
          = (0 + ph.filesz.toNat / 8) * 8 := by
        rw [UInt64.toNat_sub_of_le _ _ (by
          rw [UInt64.le_iff_toNat_le, hmod]
          exact Nat.mod_le _ _), hmod]
        omega
      rw [if_neg hshort]
      show rebaseScan mv (ph.vaddr - lo) (ph.filesz - ph.filesz % 8)
        ((ph.filesz - ph.filesz % 8).toNat / 8 + 1) 0 memory = _
      have hrounds : (ph.filesz - ph.filesz % 8).toNat / 8
          = ph.filesz.toNat / 8 := by omega
      rw [hrounds, rebaseScan_eq (ph.filesz.toNat / 8) rfl hscan, hoff]
      · omega
      · omega

theorem words_inside {lo span : UInt64} {ph : Phdr}
    (hfits : Fits image lo span ph) :
    ∀ off ∈ words lo.toNat ph, off + 8 ≤ span.toNat := by
  have hin := hfits.inside
  have hfilesz := hfits.filesz
  intro off hoff
  obtain ⟨k, hk, rfl⟩ := List.mem_map.mp hoff
  have hk := (List.mem_range'_1.mp hk).2
  omega

theorem foldlM_rebaseSegment {lo span : UInt64} {segs : List Phdr}
    (hfits : ∀ ph ∈ segs, Fits image lo span ph)
    (hlen : memory.length = span.toNat) :
    (segs.map (Phdr.segment lo)).foldlM (rebaseSegment mv) memory
      = .ok ((segs.filter Phdr.rebased).flatMap (words lo.toNat)
          |>.foldl (rebaseWord mv) memory) := by
  induction segs generalizing memory with
  | nil => rfl
  | cons ph segs ih =>
    have hfit := hfits ph List.mem_cons_self
    rw [List.map_cons, List.foldlM_cons, rebaseSegment_eq hfit hlen]
    show (segs.map (Phdr.segment lo)).foldlM (rebaseSegment mv) _ = _
    rw [ih (fun p hp => hfits p (List.mem_cons_of_mem _ hp)),
      ← List.foldl_append, ← List.flatMap_append, ← List.filter_append]
    · rfl
    · rw [length_foldl_rebaseWord, hlen]
      intro off hoff
      obtain ⟨p, hp, hoff⟩ := List.mem_flatMap.mp hoff
      rw [List.mem_singleton.mp (List.mem_filter.mp hp).1] at hoff
      rw [hlen]
      exact words_inside hfit off hoff

theorem foldl_rebaseWord_outside {offs : List Nat} {i : Nat}
    (h : ∀ off ∈ offs, off + 8 ≤ memory.length)
    (hi : ∀ off ∈ offs, i < off ∨ off + 8 ≤ i) :
    (offs.foldl (rebaseWord mv) memory)[i]? = memory[i]? := by
  induction offs generalizing memory with
  | nil => rfl
  | cons off offs ih =>
    have hoff := h off List.mem_cons_self
    have hword : (rebaseWord mv memory off)[i]? = memory[i]? := by
      unfold rebaseWord
      cases le64At memory off with
      | error e => rfl
      | ok value =>
        show (if _ then _ else _ : List UInt8)[i]? = _
        split_ifs with hmoved
        · exact overwrite_outside hoff (hi off List.mem_cons_self)
        · rfl
    rw [List.foldl_cons, ih, hword]
    · intro off' hoff'
      rw [length_rebaseWord hoff]
      exact h off' (List.mem_cons_of_mem _ hoff')
    · exact fun off' hoff' => hi off' (List.mem_cons_of_mem _ hoff')

-- ==== the result

theorem Spans.fits {lo hi : UInt64} {ph : Phdr} (hvalid : Valid image eh)
    (h : Spans (segmentsOf image eh) lo.toNat hi.toNat)
    (hph : ph ∈ headers image eh) (hload : ph.loadable = true) :
    Fits image lo (hi - lo) ph := by
  have hmem : ph ∈ segmentsOf image eh := List.mem_filter.mpr ⟨hph, hload⟩
  have hlo := h.least.2 ⟨ph, hmem, rfl⟩
  have hhi := h.greatest.2 ⟨ph, hmem, rfl⟩
  obtain ⟨hfilesz, hfile⟩ := hvalid.segments ph hph
    (eq_of_beq (Bool.and_eq_true_iff.mp hload).1)
  refine ⟨hlo, ?_, hfilesz, hfile⟩
  rw [UInt64.toNat_sub_of_le _ _ (UInt64.le_iff_toNat_le.mpr (by omega))]
  omega

theorem laid_getElem {lo : Nat} {segs : List Phdr} {span i : Nat}
    (hi : i < span) :
    ((List.range span).map (overlay image lo segs))[i]?
      = some (overlay image lo segs i) := by
  rw [List.getElem?_map, List.getElem?_range hi, Option.map_some]

/-- The block when it has been cleared. -/
def blank (entry imageBase span lo : UInt64) : Loaded :=
  ⟨entry, imageBase, span, lo, [], List.replicate span.toNat 0⟩

theorem laid_nil {entry imageBase span lo : UInt64} :
    Laid image (blank entry imageBase span lo) []
      = blank entry imageBase span lo := by
  unfold Laid blank
  congr 1
  show (List.range span.toNat).map (fun _ => 0) = _
  rw [List.map_const', List.length_range]

theorem rebaseExecPointers_eq {start : Loaded} {hi : UInt64}
    (hlt : start.imageVaddrBase < hi)
    (hmoved : start.imageBase ≠ start.imageVaddrBase)
    (hfits : ∀ ph ∈ segmentsOf image eh,
      Fits image start.imageVaddrBase start.imageSize ph) :
    rebaseExecPointers ⟨start.imageVaddrBase, hi,
        start.imageBase - start.imageVaddrBase⟩
        (Laid image start (headers image eh))
      = .ok { Laid image start (headers image eh) with
          memory := ((segmentsOf image eh).filter Phdr.rebased).flatMap
              (words start.imageVaddrBase.toNat)
            |>.foldl (rebaseWord ⟨start.imageVaddrBase, hi,
              start.imageBase - start.imageVaddrBase⟩)
              (Laid image start (headers image eh)).memory } := by
  have hcond : ¬ (start.imageBase - start.imageVaddrBase = 0 ∨
      hi ≤ start.imageVaddrBase) := by
    rw [not_or, UInt64.not_le]
    refine ⟨fun h => hmoved ?_, hlt⟩
    rw [UInt64.sub_eq_iff_eq_add, UInt64.zero_add] at h
    exact h
  unfold rebaseExecPointers
  rw [if_neg hcond]
  show ((segmentsOf image eh).map (Phdr.segment start.imageVaddrBase)).foldlM
    (rebaseSegment _) _ >>= _ = _
  rw [foldlM_rebaseSegment hfits]
  · rfl
  · show (List.map _ _).length = _
    rw [List.length_map, List.length_range]

theorem faithful_of_memory {loaded : Loaded} {lo hi : UInt64}
    (hvalid : Valid image eh) (hentry : loaded.entry = eh.entry)
    (hspans : Spans (segmentsOf image eh) lo.toNat hi.toNat)
    (hbase : loaded.imageVaddrBase = lo) (hsize : loaded.imageSize = hi - lo)
    (hfits : ∀ ph ∈ segmentsOf image eh, Fits image lo (hi - lo) ph)
    (hle : lo ≤ hi)
    (hmemory : loaded.memory =
      if eh.type = ET_EXEC ∧ loaded.imageBase ≠ lo then
        ((segmentsOf image eh).filter Phdr.rebased).flatMap (words lo.toNat)
          |>.foldl (rebaseWord ⟨lo, hi, loaded.imageBase - lo⟩)
            ((List.range loaded.imageSize.toNat).map
              (overlay image lo.toNat (segmentsOf image eh)))
      else (List.range loaded.imageSize.toNat).map
        (overlay image lo.toNat (segmentsOf image eh))) :
    Faithful image loaded eh lo hi where
  header := hvalid.header
  entry := hentry
  spans := hspans
  vaddrBase := hbase
  size := by
    rw [hsize, UInt64.toNat_sub_of_le _ _ hle]
  memory := hmemory
  changed := by
    intro i hi hne
    by_contra hnone
    apply hne
    rw [hmemory]
    split_ifs with hmoved
    · rw [foldl_rebaseWord_outside, laid_getElem hi]
      · intro off hoff
        obtain ⟨ph, hph, hoff⟩ := List.mem_flatMap.mp hoff
        rw [List.length_map, List.length_range, hsize]
        exact words_inside (hfits ph (List.mem_filter.mp hph).1) off hoff
      · intro off hoff
        obtain ⟨ph, hph, hoff⟩ := List.mem_flatMap.mp hoff
        obtain ⟨hin, hrebased⟩ := List.mem_filter.mp hph
        by_contra hword
        rw [not_or, Nat.not_lt, Nat.not_le] at hword
        exact hnone ⟨ph, hin, hrebased, off, hoff, hword⟩
    · exact laid_getElem hi

theorem layOut_gives {bounds : Bounds} {imageBase : UInt64}
    (hvalid : Valid image eh) (hbounded : Bounded (headers image eh) bounds)
    (hpos : bounds.loadCount ≠ 0)
    (hmax : bounds.loadCount.toNat ≤ MAX_SEGMENTS) :
    Gives (fun r => ∀ loaded, r = some loaded → ∃ lo hi,
      Faithful image loaded eh lo hi)
      (layOut image eh bounds imageBase) := by
  obtain ⟨hcount, hspans⟩ := hbounded
  obtain ⟨count, lo, hi⟩ := bounds
  have hne : segmentsOf image eh ≠ [] := by
    intro hnil
    rw [show (headers image eh).filter Phdr.loadable = [] from hnil] at hcount
    exact hpos (UInt16.toNat_inj.mp hcount)
  have hspans : Spans (segmentsOf image eh) lo.toNat hi.toNat := hspans hne
  have hfits : ∀ ph ∈ segmentsOf image eh, Fits image lo (hi - lo) ph := by
    intro ph hph
    obtain ⟨hin, hload⟩ := List.mem_filter.mp hph
    exact hspans.fits hvalid hin hload
  have hlt : lo < hi := by
    obtain ⟨ph, hph⟩ := List.exists_mem_of_ne_nil _ hne
    have hlo := hspans.least.2 ⟨ph, hph, rfl⟩
    have hhi := hspans.greatest.2 ⟨ph, hph, rfl⟩
    have hmemsz : ph.memsz ≠ 0 :=
      bne_iff_ne.mp (Bool.and_eq_true_iff.mp (List.mem_filter.mp hph).2).2
    have hpos := UInt64.pos_iff_ne_zero.mpr hmemsz
    rw [UInt64.lt_iff_toNat_lt] at hpos ⊢
    have hpos : 0 < ph.memsz.toNat := hpos
    omega
  have hle := UInt64.le_of_lt hlt
  have hlaid := @eachOf_layPhdr image
    (blank eh.entry imageBase (hi - lo) lo) (headers image eh) laid_nil
    (fun ph hph hload => hfits ph (List.mem_filter.mpr ⟨hph, hload⟩))
    (by rw [← hcount]; exact hmax)
  unfold layOut
  show Gives _ (eachPhdr image eh (layPhdr image)
    (blank eh.entry imageBase (hi - lo) lo) >>= _)
  rw [eachPhdr_eq hvalid.table, hlaid]
  refine Gives.ite (fun htype => Gives.ite (fun hmoved => ?_) fun hstays => ?_)
    fun htype => ?_
  · have hrebased := @rebaseExecPointers_eq image eh
      (blank eh.entry imageBase (hi - lo) lo) hi hlt hmoved hfits
    show Gives _ (rebaseExecPointers ⟨lo, hi, imageBase - lo⟩
      (Laid image (blank eh.entry imageBase (hi - lo) lo) (headers image eh))
      >>= _)
    rw [show rebaseExecPointers ⟨lo, hi, imageBase - lo⟩ _ = _ from hrebased]
    refine .pure fun loaded h => ⟨lo, hi, ?_⟩
    obtain rfl := Option.some.inj h
    exact faithful_of_memory hvalid rfl hspans rfl rfl hfits hle
      (if_pos ⟨htype, hmoved⟩).symm
  · refine .pure fun loaded h => ⟨lo, hi, ?_⟩
    obtain rfl := Option.some.inj h
    exact faithful_of_memory hvalid rfl hspans rfl rfl hfits hle
      (if_neg fun h => hstays h.2).symm
  · refine .pure fun loaded h => ⟨lo, hi, ?_⟩
    obtain rfl := Option.some.inj h
    exact faithful_of_memory hvalid rfl hspans rfl rfl hfits hle
      (if_neg fun h => htype h.1).symm

/-- The loading of an image reads inside of its bytes and writes inside of
its block, whatever the bytes are, and so do the checks before it and the
lookups after it. What it results in is the image that its segments
describe. -/
theorem load_faithful (image : Source) (kmalloc : UInt64 → Option UInt64) :
    Safe (validate image) ∧ Safe (inspect image) ∧
    (∀ loaded symbol, Safe (resolveSymbol image loaded symbol)) ∧
    ∃ result, load image kmalloc = .ok result ∧
      ∀ loaded, result = some loaded →
        ∃ eh lo hi, Faithful image loaded eh lo hi := by
  refine ⟨(validate_gives image).safe, inspect_safe image,
    resolveSymbol_safe image, ?_⟩
  obtain ⟨valid, heq, hvalid⟩ := validate_gives image
  show Gives (fun r => ∀ loaded, r = some loaded →
    ∃ eh lo hi, Faithful image loaded eh lo hi) (load image kmalloc)
  unfold load
  rw [heq]
  cases valid with
  | false => exact .pure fun _ h => nomatch h
  | true =>
    obtain ⟨eh, heh⟩ := hvalid rfl
    show Gives _ (ehdrAt image.val >>= _)
    rw [heh.header]
    show Gives _ (eachPhdr image eh boundPhdr _ >>= _)
    rw [eachPhdr_eq heh.table]
    have hlength : (headers image eh).length ≤ eh.phnum.toNat := by
      refine Nat.le_trans (List.length_filterMap_le _ _) ?_
      rw [List.length_range']
    have hphnum := eh.phnum.toNat_lt
    have hbounds := @eachOf_gives Bounds boundPhdr Bounded (headers image eh)
      ⟨0, 0, 0⟩ ⟨rfl, fun h => absurd rfl h⟩ fun done ph rest hall s hs => by
        refine boundPhdr_gives ph ?_ hs
        have := congrArg List.length hall
        rw [List.length_append, List.length_cons] at this
        omega
    refine hbounds.bind fun r hr => ?_
    cases r with
    | none => exact .pure fun _ h => nomatch h
    | some bounds =>
      refine .ite (fun _ => .pure fun _ h => nomatch h) fun hpos =>
        .ite (fun _ => .pure fun _ h => nomatch h) fun hmax =>
        .ite (fun _ => .pure fun _ h => nomatch h) fun _ => ?_
      cases kmalloc (bounds.maxVaddrEnd - bounds.minVaddr) with
      | none => exact .pure fun _ h => nomatch h
      | some imageBase =>
        exact (layOut_gives heh (hr bounds rfl) hpos
          (Nat.not_lt.mp hmax)).mono fun r h loaded heq => ⟨eh, h loaded heq⟩

end Clks.Elf
