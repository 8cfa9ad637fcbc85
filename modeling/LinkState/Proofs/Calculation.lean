import LinkState.Network.Databases
import LinkState.Network.Paths
import LinkState.Proofs.Copies
import LinkState.Proofs.Operation
import LinkState.Proofs.Search.Marks
import LinkState.Proofs.ShortestPaths
import LinkState.Proofs.Topology

/-! Searches over a live database. They mark advertisements and count what they dropped, and change
nothing else: the records that later searches go by are the same. A search first takes all marks
away, so neither what it finds nor what it leaves depends on them. -/

namespace LinkState

namespace Network

variable {n n' n'' : Network}

def unmarked (a : Advertisement) : Advertisement := a.setStatus .notExplored

/-- Nothing but marks, counts and the journal differs. -/
inductive Marks (n : Network) : Network → Prop
  | mk {j : Journal} {ss : Array Searcher} {as : Array Advertisement}
      (searchers : ss.map Searcher.database = n.searchers.map Searcher.database)
      (advertisements : as.map unmarked = n.advertisements.map unmarked) :
      Marks n { n with journal := j, searchers := ss, advertisements := as }

theorem Marks.refl (n : Network) : Marks n n := ⟨rfl, rfl⟩

theorem Marks.trans (h : Marks n n') (h' : Marks n' n'') : Marks n n'' := by
  obtain ⟨hs, ha⟩ := h
  obtain ⟨hs', ha'⟩ := h'
  exact ⟨hs'.trans hs, ha'.trans ha⟩

theorem Marks.journal (h : Marks n n') (j : Journal) : Marks n { n' with journal := j } := by
  obtain ⟨hs, ha⟩ := h
  exact ⟨hs, ha⟩

theorem Marks.sameTopology (h : Marks n n') : SameTopology n n' := by
  obtain ⟨hs, -⟩ := h
  exact ⟨rfl, rfl, rfl, rfl, rfl, rfl, rfl, hs, rfl, rfl⟩

theorem Marks.tables (h : Marks n n') : n'.tables = n.tables := by
  obtain ⟨-, -⟩ := h
  rfl

theorem Marks.table (h : Marks n n') (t : TableId) : n'.table t = n.table t := by
  rw [Network.table, h.tables, Network.table]

theorem Marks.stores (h : Marks n n') : n'.stores = n.stores := by
  obtain ⟨-, -⟩ := h
  rfl

theorem Marks.advertisement (h : Marks n n') (a : AdvertisementId) :
    unmarked (n'.advertisement a) = unmarked (n.advertisement a) := by
  obtain ⟨-, ha⟩ := h
  exact getD_of_map_eq ha a default

theorem Marks.database (h : Marks n n') (d : DatabaseId) : n'.database d = n.database d := by
  obtain ⟨-, -⟩ := h
  rfl

theorem Marks.snapshot (h : Marks n n') (d : DatabaseId) :
    SameRecords (n.snapshot d) (n'.snapshot d) := by
  intro id
  simp only [Network.snapshot, Database.get?_map, h.database, Option.map_map]
  refine congrArg (Option.map · _) (funext fun a => ?_)
  have ha := h.advertisement a
  exact (congrArg Advertisement.records ha).symm

/-- The counts of searches do not differ either. -/
def MarksAlone (n n' : Network) : Prop := Marks n n' ∧ n'.searchers = n.searchers

theorem MarksAlone.refl (n : Network) : MarksAlone n n := ⟨.refl n, rfl⟩

theorem MarksAlone.trans (h : MarksAlone n n') (h' : MarksAlone n' n'') : MarksAlone n n'' :=
  ⟨h.1.trans h'.1, h'.2.trans h.2⟩

theorem MarksAlone.searcher (h : MarksAlone n n') (s : SearcherId) :
    n'.searcher s = n.searcher s := by
  rw [Network.searcher, h.2, Network.searcher]

/-- The counts of a search that there is are the given ones. -/
def Counts (n : Network) (s : SearcherId) (stats : SearchStats) : Prop :=
  s < n.searchers.size → (n.searcher s).stats = stats

theorem Marks.size_searchers (h : Marks n n') : n'.searchers.size = n.searchers.size := by
  obtain ⟨hs, -⟩ := h
  have hsize := congrArg Array.size hs
  rwa [Array.size_map, Array.size_map] at hsize

theorem MarksAlone.counts (h : MarksAlone n n') {s : SearcherId} {stats : SearchStats}
    (hc : Counts n s stats) : Counts n' s stats := by
  intro hs
  rw [h.searcher]
  exact hc (h.1.size_searchers ▸ hs)

/-- A database without marks. -/
def unexplored (n : Network) (d : DatabaseId) : Database Advertisement :=
  (n.snapshot d).map unmarked

theorem Marks.unexplored (h : Marks n n') (d : DatabaseId) : n'.unexplored d = n.unexplored d := by
  have hdb : n'.database d = n.database d := h.database d
  have hadv (a : AdvertisementId) : unmarked (n'.advertisement a) = unmarked (n.advertisement a) :=
    h.advertisement a
  simp only [Network.unexplored, Network.snapshot, hdb, Database.map_eq_mapWith,
    Database.mapWith_mapWith, hadv]

theorem sameRecords_unexplored (n : Network) (d : DatabaseId) :
    SameRecords (n.snapshot d) (n.unexplored d) := by
  intro id
  rw [Network.unexplored, Database.get?_map, Option.map_map]
  rfl

theorem Marks.ownCopies (h : Marks n n') {d : DatabaseId} (hc : n.OwnCopies d) :
    n'.OwnCopies d := by
  obtain ⟨-, ha⟩ := h
  have hsize := congrArg Array.size ha
  rw [Array.size_map, Array.size_map] at hsize
  exact hc.of_eq rfl hsize.ge

theorem marks_modifyStats (n : Network) (s : SearcherId) (f : SearchStats → SearchStats) :
    Marks n { n with searchers := n.searchers.modify s fun x => { x with stats := f x.stats } } :=
  ⟨map_modify_of_comp (f := fun x : Searcher => { x with stats := f x.stats })
    (g := Searcher.database) (fun _ => rfl) .., rfl⟩

/-- Counts are set to what they were turned into. -/
theorem completes_modifyStats (s : SearcherId) (f : SearchStats → SearchStats) :
    Completes (modifySearcher s fun x => { x with stats := f x.stats }) n fun _ n' =>
      Marks n n' ∧ (∀ stats, Counts n s stats → Counts n' s (f stats)) ∧
        n'.snapshot = n.snapshot := by
  refine completes_modify rfl ⟨marks_modifyStats n s f, ?_, rfl⟩
  intro stats hc hs
  rw [Array.size_modify] at hs
  have hstats := hc hs
  simp only [Network.searcher, Array.getD_eq_getD_getElem?, Array.getElem?_modify,
    Array.getElem?_eq_getElem hs, if_true, Option.map_some, Option.getD_some] at hstats ⊢
  rw [hstats]

theorem marksAlone_setStatus (n : Network) (a : AdvertisementId) (t : Status) :
    MarksAlone n { n with advertisements := n.advertisements.modify a (·.setStatus t) } :=
  ⟨⟨rfl, map_modify_of_comp (f := Advertisement.setStatus t) (fun _ => rfl) ..⟩, rfl⟩

theorem completes_event {level : Level} {source name message : String} {data : Option Datum} :
    Completes (log level source name message data) n fun _ n' =>
      MarksAlone n n' ∧ n'.snapshot = n.snapshot :=
  completes_log fun j => ⟨⟨(Marks.refl n).journal j, rfl⟩, rfl⟩

def remarked (f : Finding) (db : Database Advertisement) : Database Advertisement :=
  db.mapWith fun id a => a.setStatus (f.remark id a.status)

theorem remarked_eq_self {f : Finding} (h : ∀ id st, f.remark id st = st)
    (db : Database Advertisement) : remarked f db = db := by
  simp only [remarked, h]
  exact Database.mapWith_id db

/-- A mark changes the advertisement of its router alone, if the database owns what is in it. -/
theorem completes_mark {d : DatabaseId} {id : Address} {t : Status} :
    Completes (mark d id t) n fun _ n' => MarksAlone n n' ∧
      (n.OwnCopies d → n'.snapshot d = remarked (.marked id t) (n.snapshot d)) := by
  refine Completes.bind (completes_get ?_)
  cases ha : (n.database d).get? id with
  | some a =>
    refine completes_modify rfl ⟨marksAlone_setStatus n a t, fun hc => ?_⟩
    rw [hc.snapshot_modify ha, remarked]
    refine Database.mapWith_congr fun e _ => ?_
    simp only [Finding.remark, eq_comm (a := id)]
    split <;> rfl
  | none =>
    refine completes_pure ⟨.refl n, fun _ => ?_⟩
    rw [remarked]
    refine (Database.mapWith_id _).symm.trans (Database.mapWith_congr fun e he => ?_)
    have hne : id ≠ e.1 := by
      rintro rfl
      have hget := Database.get?_of_mem he
      rw [Network.snapshot, Database.get?_map, ha] at hget
      cases hget
    simp only [Finding.remark, hne, if_false]
    rfl

structure Followed (s : SearcherId) (f : Finding) (n n' : Network) : Prop where
  marks : Marks n n'
  counts : ∀ stats, Counts n s stats → Counts n' s (stats.count f)
  snapshot : n.OwnCopies (n.searcher s).database →
    n'.snapshot (n.searcher s).database = remarked f (n.snapshot (n.searcher s).database)

theorem completes_follow (s : SearcherId) (f : Finding) :
    Completes (follow s f) n fun _ => Followed s f n := by
  refine Completes.bind ((completes_modifyStats s (·.count f)).mono fun _ n₁ h₁ => ?_)
  obtain ⟨hmarks, hcounts, hsnap⟩ := h₁
  refine Completes.bind (completes_get ?_)
  -- an event marks nothing
  have event {x : NetworkM Unit} (hx : Completes x n₁ fun _ n₂ =>
        MarksAlone n₁ n₂ ∧ n₂.snapshot = n₁.snapshot) (hf : ∀ id st, f.remark id st = st) :
      Completes x n₁ fun _ => Followed s f n := by
    refine hx.mono fun _ n₂ h₂ => ⟨hmarks.trans h₂.1.1,
      fun stats hc => h₂.1.counts (hcounts stats hc), fun _ => ?_⟩
    rw [h₂.2, hsnap, remarked_eq_self hf]
  cases f with
  | marked id t =>
    dsimp only
    rw [hmarks.sameTopology.searcher]
    refine completes_mark.mono fun _ n₂ h₂ => ⟨hmarks.trans h₂.1.1,
      fun stats hc => h₂.1.counts (hcounts stats hc), fun hc => ?_⟩
    rw [h₂.2 (hmarks.ownCopies hc), hsnap]
  | noRoot | unresolved | overflow | badMask | finished =>
    exact event completes_event fun _ _ => rfl

/-- The marks of the advertisements of a database are taken away. -/
theorem completes_resetStatus (d : DatabaseId) :
    Completes (resetStatus d) n fun _ n' => MarksAlone n n' ∧ n'.snapshot d = n.unexplored d := by
  refine Completes.bind (completes_get ?_)
  -- what is not left to do has no mark
  refine Completes.bind (Completes.mono (completes_forIn
    (fun es n' => MarksAlone n n' ∧ ∀ e ∈ (n.database d).entries,
      e ∉ es → (n'.advertisement e.2).status = .notExplored)
    (fun e es n' h => ?_) _ ⟨.refl n, fun e he hno => absurd he hno⟩)
    fun _ n' h => completes_pure ⟨h.1, ?_⟩)
  · obtain ⟨hm, hdone⟩ := h
    refine completes_modify rfl ⟨hm.trans (marksAlone_setStatus n' e.2 .notExplored), ?_⟩
    intro e' he' hno
    have hadv : Network.advertisement { n' with
        advertisements := n'.advertisements.modify e.2 (·.setStatus .notExplored) } e'.2 =
        if e'.2 = e.2 ∧ e.2 < n'.advertisements.size
          then (n'.advertisement e.2).setStatus .notExplored else n'.advertisement e'.2 :=
      getD_modify ..
    rw [hadv]
    split
    · rfl
    · next hne =>
      by_cases hee : e' = e
      · -- an advertisement that does not exist has no mark
        rw [hee, not_and, Nat.not_lt] at hne
        rw [hee, Network.advertisement, getD_of_le _ (hne rfl)]
        rfl
      · exact hdone e' he' (by simp [hee, hno])
  · obtain ⟨hm, hdone⟩ := h
    rw [← hm.1.unexplored, unexplored, Network.snapshot, hm.1.database]
    simp only [Database.map_eq_mapWith, Database.mapWith_mapWith]
    refine Database.mapWith_congr fun e he => ?_
    rw [unmarked, Advertisement.setStatus, ← hdone e he List.not_mem_nil]

/-- The marks that a search leaves on a database without marks. -/
def explored (db : Database Advertisement) (root : Address) : Database Advertisement :=
  db.mapWith fun id a => a.setStatus ((Search.run db root).mark id)

theorem sameRecords_explored (db : Database Advertisement) (root : Address) :
    SameRecords db (explored db root) := by
  intro id
  rw [explored, Database.get?_mapWith, Option.map_map]
  rfl

theorem foldl_remarked (fs : List Finding) (db : Database Advertisement) :
    fs.foldl (fun db f => remarked f db) db =
      db.mapWith fun id a => a.setStatus (fs.foldl (Finding.remark id) a.status) := by
  induction fs generalizing db with
  | nil => exact (Database.mapWith_id db).symm
  | cons f fs ih =>
    rw [List.foldl_cons, ih, remarked, Database.mapWith_mapWith]
    rfl

theorem foldl_trace (n : Network) (d : DatabaseId) (root : Address) :
    (Search.run (n.unexplored d) root).trace.toList.foldl (fun db f => remarked f db)
      (n.unexplored d) = explored (n.unexplored d) root := by
  rw [foldl_remarked, explored]
  refine Database.mapWith_congr fun e he => ?_
  obtain ⟨e', -, rfl⟩ := List.mem_map.1 he
  rw [Search.mark, Array.foldl_toList]
  rfl

structure Calculated (s : SearcherId) (root : Address) (n : Network) (t : PathTree)
    (n' : Network) : Prop where
  marks : Marks n n'
  tree : t = shortestPaths (n.unexplored (n.searcher s).database) root
  counts : Counts n' s (Search.run (n.unexplored (n.searcher s).database) root).stats
  snapshot : n.OwnCopies (n.searcher s).database →
    n'.snapshot (n.searcher s).database = explored (n.unexplored (n.searcher s).database) root

theorem completes_calculate_exact (s : SearcherId) (root : Address) :
    Completes (calculate s root) n fun t n' => Calculated s root n t n' := by
  refine Completes.bind ((completes_modifyStats s fun _ => .zero).mono fun _ n₁ h₁ => ?_)
  refine Completes.bind (completes_get ?_)
  rw [h₁.1.sameTopology.searcher]
  generalize hd : (n.searcher s).database = d
  refine Completes.bind ((completes_resetStatus d).mono fun _ n₂ h₂ => ?_)
  refine Completes.bind (completes_get ?_)
  have hstart : Counts n₂ s .zero := h₂.1.counts (h₁.2.1 _ fun _ => rfl)
  have hmarks := h₁.1.trans h₂.1.1
  rw [h₂.2, h₁.1.unexplored]
  -- the findings that are left lead from the counts and marks so far to those of the search
  refine Completes.bind (Completes.mono (completes_forIn
    (fun fs n' => Marks n n' ∧
      (∃ stats, Counts n' s stats ∧ fs.foldl SearchStats.count stats =
        (Search.run (n.unexplored d) root).stats) ∧
      (n.OwnCopies d → fs.foldl (fun db f => remarked f db) (n'.snapshot d) =
        explored (n.unexplored d) root))
    (fun f fs n' h => (completes_follow s f).mono fun _ n'' h' => ?_) _
    ⟨hmarks, ⟨_, hstart, ?_⟩, fun _ => ?_⟩) fun _ n₃ h₃ => completes_pure ?_)
  · obtain ⟨hm, ⟨stats, hc, hfs⟩, hsnap⟩ := h
    refine ⟨hm.trans h'.marks, ⟨stats.count f, h'.counts stats hc, hfs⟩, fun hown => ?_⟩
    have hsnap' := h'.snapshot
    rw [hm.sameTopology.searcher, hd] at hsnap'
    rw [hsnap' (hm.ownCopies hown)]
    exact hsnap hown
  · rw [Search.stats, Array.foldl_toList]
  · rw [h₂.2, h₁.1.unexplored]
    exact foldl_trace n d root
  · obtain ⟨hm, ⟨stats, hc, hfs⟩, hsnap⟩ := h₃
    refine ⟨hm, hd ▸ rfl, ?_, ?_⟩
    · rw [hd, ← hfs]
      exact hc
    · rw [hd]
      exact hsnap

/-- A search returns the shortest paths over the database as it was, its marks apart, and counts
what it dropped. -/
theorem completes_calculate (s : SearcherId) (root : Address) :
    Completes (calculate s root) n fun t n' => Marks n n' ∧
      ∃ db, SameRecords (n.snapshot (n.searcher s).database) db ∧ t = shortestPaths db root ∧
        Counts n' s (Search.run db root).stats :=
  (completes_calculate_exact s root).mono fun _ _ h =>
    ⟨h.marks, _, sameRecords_unexplored n _, h.tree, h.counts⟩

/-- Where a search is stopped, too, nothing but marks, counts and the journal differs. -/
theorem marks_calculate (n : Network) (s : SearcherId) (root : Address) :
    Marks n (exec (calculate s root) n).2 := by
  have follow (f : Finding) (m : Network) (h : Marks n m) : Marks n (exec (follow s f) m).2 := by
    refine exec_bind_post (h.trans (marks_modifyStats m s (·.count f))) fun _ m₁ h₁ => ?_
    refine exec_bind_post (P := Marks n) h₁ fun x m₂ h₂ => ?_
    have event {level : Level} {source name message : String} {data : Option Datum} :
        Marks n (exec (log level source name message data) m₂).2 := by
      obtain ⟨j, hj⟩ : Logged m₂ (exec (log level source name message data) m₂).2 := logged_log
      rw [hj]
      exact h₂.journal j
    cases f with
    | marked id t =>
      refine exec_bind_post (P := Marks n) h₂ fun y m₃ h₃ => ?_
      split
      · exact h₃.trans (marksAlone_setStatus ..).1
      · exact h₃
    | noRoot | unresolved | overflow | badMask | finished => exact event
  refine exec_bind_post (marks_modifyStats n s fun _ => .zero) fun _ n₁ h₁ => ?_
  refine exec_bind_post (P := Marks n) h₁ fun x n₂ h₂ => ?_
  refine exec_bind_post (P := Marks n) ?_ fun _ n₃ h₃ => ?_
  · refine exec_bind_post (P := Marks n) h₂ fun y m h => ?_
    refine exec_bind_post ?_ fun _ _ => id
    exact exec_forIn_post (fun e m h => h.trans (marksAlone_setStatus m e.2 .notExplored).1) _ h
  · refine exec_bind_post (P := Marks n) h₃ fun y n₄ h₄ => ?_
    refine exec_bind_post ?_ fun _ _ => id
    exact exec_forIn_post follow _ h₄

/-- The computed tree is that of the shortest paths over the database. -/
theorem calculate_shortestPaths (n : Network) (s : SearcherId) (root : Address) :
    Completes (calculate s root) n fun t _ =>
      IsShortestPathTree (n.snapshot (n.searcher s).database) root t := by
  refine (completes_calculate s root).mono ?_
  rintro t n' ⟨-, db, hdb, rfl, -⟩
  exact (shortestPaths_isShortestPathTree db root).congr hdb.symm

def searcherOver (as : List Advertisement) : NetworkM SearcherId := do
  let d ← newDatabase
  for a in as do install d a
  newSearcher d

end Network

end LinkState
