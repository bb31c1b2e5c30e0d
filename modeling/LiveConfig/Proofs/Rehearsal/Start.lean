import LiveConfig.Proofs.Kv.Create
import LiveConfig.Proofs.Kv.Watch
import LiveConfig.Rehearsal.Stage

/-!
# Rehearsal — Start

How a store starts over one key/value source whose store is held in memory (`Solo`).  The source is
attached with what is there, then it is seeded, and once live updates are on, its watch delivers what
it holds by then.  Each step is told by what it does to the store and to the memory (`load_solo`,
`bootstrap_solo`, `watch_solo`, `settle_solo`).

As nobody writes from then on, the watch delivers once, and the overlay stays what the source held
after it was seeded (`overlays_settled`).
-/

namespace LiveConfig.Rehearsal

open LiveConfig.Kv

namespace Stage

variable {α : Type} {memory source : String} {kv : Source} {m n : Memory} {s : Stage α}

/-- There is one source, which is there to stay, over one store held in memory. -/
structure Solo (memory source : String) (kv : Source) (m : Memory) (s : Stage α) : Prop where
  memories : s.memories = [(memory, m)]
  origins : s.origins = [(source, .kv memory kv)]
  gone : s.gone = false

theorem Solo.find?_memory (h : Solo memory source kv m s) : s.memories.find? memory = some m := by
  rw [h.memories, Keyed.find?_cons, if_pos rfl]

theorem Solo.find?_origin (h : Solo memory source kv m s) :
    s.origins.find? source = some (.kv memory kv) := by
  rw [h.origins, Keyed.find?_cons, if_pos rfl]

theorem Solo.warn (h : Solo memory source kv m s) (warnings : List Warning) :
    Solo memory source kv m (s.warn warnings) :=
  ⟨h.memories, h.origins, h.gone⟩

theorem warn_store (s : Stage α) (warnings : List Warning) : (s.warn warnings).store = s.store := rfl

theorem warn_warn (s : Stage α) (ws us : List Warning) :
    (s.warn ws).warn us = s.warn (ws ++ us) := by
  simp only [Stage.warn, List.append_assoc]

/-! ### Attaching -/

/-- The source answers with what it holds. -/
theorem read_solo (h : Solo memory source kv m s) :
    ∃ warnings, s.read source = (.ok (kv.get m), s.warn warnings) := by
  refine ⟨(kv.read (m.scan kv.scanRoot)).2.map .dropped, ?_⟩
  simp only [read, fold, h.find?_origin, h.find?_memory, Option.getD_some]
  rfl

theorem load_solo (h : Solo memory source kv m s) :
    ∃ warnings, s.load source =
      (.ok (), { s.warn warnings with store := s.store.attach source (kv.get m) }) := by
  obtain ⟨warnings, hread⟩ := read_solo h
  refine ⟨warnings ++ (kv.get m).normalize.2.map .collision, ?_⟩
  simp only [load, hread, warnCollisions, warn_warn]
  rfl

/-! ### Seeding -/

/-- While nobody watches, creating keys is creating them in the memory. -/
theorem writeAll_solo (entries : List (String × Bytes)) (hm : s.memories = [(memory, m)])
    (hf : s.feeds = []) :
    Source.writeAll (create memory) entries s =
      ([], { s with memories := [(memory, m.createAll entries)] }) := by
  induction entries generalizing m s with
  | nil => simp only [Source.writeAll, Memory.createAll, List.foldl_nil, ← hm]; rfl
  | cons e rest ih =>
      obtain ⟨key, value⟩ := e
      have hfind : s.memories.find? memory = some m := by rw [hm, Keyed.find?_cons, if_pos rfl]
      have halter : s.alter memory (fun m => (m.insert key value).2) =
          { s with memories := [(memory, (m.insert key value).2)] } := by
        simp only [alter, hfind, hf, List.filter_nil, List.foldl_nil, ite_self]
        rw [hm, Keyed.insert, if_neg (lt_irrefl memory), if_pos rfl]
      have hrest := ih (m := (m.insert key value).2)
        (s := { s with memories := [(memory, (m.insert key value).2)] }) rfl hf
      simp only [Source.writeAll, bind, StateT.bind, create, halter]
      rw [hrest]
      rfl

theorem write_solo (h : Solo memory source kv m s) (hf : s.feeds = []) (t : Tree) :
    write source t s = ((kv.write Memory.create t m).1,
      { s with memories := [(memory, (kv.write Memory.create t m).2)] }) := by
  simp only [write, h.find?_origin, Source.write]
  cases flatten kv.root t with
  | error e =>
      have hs : s = { s with memories := [(memory, m)] } := by rw [← h.memories]
      exact congrArg (Prod.mk (Except.error e)) hs
  | ok entries =>
      simp only [Functor.map, StateT.map, bind, pure]
      rw [writeAll_solo entries h.memories hf, writeAll_create]

/-- Seeding does to the memory what it does to a memory of its own. -/
theorem bootstrap_solo (h : Solo memory source kv m s) (hf : s.feeds = [])
    (hb : Kv.bootstrap s.store kv m = (.ok (), n)) :
    ∃ warnings, s.bootstrap source =
      (.ok (), { s.warn warnings with memories := [(memory, n)] }) := by
  obtain ⟨warnings, hread⟩ := read_solo h
  refine ⟨warnings ++ (kv.get m).normalize.2.map .collision, ?_⟩
  have hwrite := write_solo (h.warn (warnings ++ (kv.get m).normalize.2.map .collision)) hf
    (s.store.seed (kv.get m))
  simp only [bootstrap, hread, warnCollisions, warn_warn, warn_store]
  simp only [Kv.bootstrap, Store.bootstrap, bind, StateT.bind] at hb ⊢
  obtain ⟨outcome, m', hm⟩ :
      ∃ outcome m', kv.write Memory.create (s.store.seed (kv.get m)) m = (outcome, m') :=
    ⟨_, _, rfl⟩
  rw [hm] at hb hwrite
  rw [hwrite]
  cases outcome with
  | ok _ =>
      cases hb
      rfl
  | error e =>
      -- a memory can be written, so that no outcome but one is left over
      cases e <;> cases hb
      rfl

/-! ### Live updates -/

/-- The first listing of a source and the watch that follows it. -/
def feedOf (source : String) (kv : Source) (m : Memory) (id overlay : Nat) : Feed :=
  ⟨id, overlay, source, .start kv.options (m.scan kv.scanRoot), some (m.scan kv.scanRoot)⟩

theorem watch_solo (h : Solo memory source kv m s) (hkv : kv.closed = false)
    (hc : s.store.closed = false) (hd : s.store.dispatcher = none) {o : Overlay String}
    (ho : s.store.overlays = [o]) (hs : o.source = source) (hj : s.jobs = []) (hf : s.feeds = []) :
    s.watch = { s with
      store := { s.store with dispatcher := some .waiting }
      feeds := [feedOf source kv m s.nextFeed o.id]
      nextFeed := s.nextFeed + 1
      jobs := [.dispatcher, .feed s.nextFeed] } := by
  simp only [watch, Store.watch, hc, hd, ho, Option.isSome_none, Bool.or_self]
  simp [register, hs, h.find?_origin, h.find?_memory, hkv, wake, hj, hf, feedOf]

/-- The overlay of a source that was attached, seeded and then watched. -/
theorem setUp_watch_solo (memory source : String) {defaults environment : Tree}
    (hkv : kv.closed = false)
    (hb : Kv.bootstrap (.ofBase (.ofTrees defaults environment) : Store String (Component α)) kv m =
      (.ok (), n)) :
    let s := (start defaults environment [(memory, m)] [(source, .kv memory kv)] :
      Stage α).setUp [⟨source, true⟩]
    s.1 = .ok () ∧ Solo memory source kv n s.2.watch ∧
      s.2.watch.store.base = .ofTrees defaults environment ∧ s.2.watch.store.closed = false ∧
      s.2.watch.store.overlays = [⟨0, source, (kv.get m).normal⟩] ∧
      s.2.watch.jobs = [.dispatcher, .feed 0] ∧ s.2.watch.feeds = [feedOf source kv n 0 0] := by
  intro s
  let s₀ : Stage α := start defaults environment [(memory, m)] [(source, .kv memory kv)]
  have h₀ : Solo memory source kv m s₀ := ⟨rfl, rfl, rfl⟩
  obtain ⟨ws, hload⟩ := load_solo h₀
  let s₁ : Stage α := { s₀.warn ws with store := s₀.store.attach source (kv.get m) }
  have h₁ : Solo memory source kv m s₁ := ⟨rfl, rfl, rfl⟩
  obtain ⟨ws', hboot⟩ := bootstrap_solo h₁ rfl hb
  have h₂ : Solo memory source kv n { s₁.warn ws' with memories := [(memory, n)] } :=
    ⟨rfl, rfl, rfl⟩
  have hs : s = (.ok (), { s₁.warn ws' with memories := [(memory, n)] }) := by
    simp only [s, setUp]
    rw [hload]
    simp only [if_true]
    rw [hboot]
  rw [hs, watch_solo h₂ hkv rfl rfl rfl rfl rfl rfl]
  exact ⟨rfl, ⟨rfl, rfl, rfl⟩, rfl, rfl, rfl, rfl, rfl⟩

end Stage

/-! ### The dispatcher -/

/-- The stores answer lookups alike, and both are open or both are closed. -/
structure SameLayers {S B : Type} (s s' : Store S B) : Prop where
  base : s'.base = s.base
  overlays : s'.overlays = s.overlays
  closed : s'.closed = s.closed

theorem SameLayers.trans {S B : Type} {s s' s'' : Store S B} (h : SameLayers s s')
    (h' : SameLayers s' s'') : SameLayers s s'' :=
  ⟨h'.base.trans h.base, h'.overlays.trans h.overlays, h'.closed.trans h.closed⟩

theorem sameLayers_receive {S B : Type} (s : Store S B) : SameLayers s s.receive := by
  unfold Store.receive
  split <;> exact ⟨rfl, rfl, rfl⟩

theorem sameLayers_round {S B : Type} [Change.Subscriber B] (s : Store S B) :
    SameLayers s s.round := by
  have hpass : SameLayers s s.beginPass.endPass := by
    unfold Store.endPass
    split <;> exact ⟨rfl, rfl, rfl⟩
  exact hpass.trans (sameLayers_receive _)

theorem sameLayers_settle {S B : Type} [Change.Subscriber B] (s : Store S B) :
    SameLayers s s.settle :=
  ((sameLayers_receive s).trans (sameLayers_round _)).trans (sameLayers_round _)

namespace Stage

variable {α : Type} {memory source : String} {kv : Source} {m n : Memory} {s : Stage α}

/-! ### Deliveries -/

theorem index_of_answer? {root : String} {query : Option Query} {since now : Nat} {l : Listing}
    (h : m.answer? root query since now = some l) : l.index = m.index := by
  unfold Memory.answer? at h
  split at h
  · cases h
    rfl
  · split at h <;> cases h
    rfl

theorem deliver_open (hg : s.gone = false) (hc : s.store.closed = false) (overlay : Nat) (t : Tree) :
    (s.deliver overlay t).store = s.store.deliver overlay t ∧
      (s.deliver overlay t).gone = false ∧ (s.deliver overlay t).memories = s.memories := by
  unfold deliver wake
  rw [hg, hc, Bool.or_self, if_neg Bool.false_ne_true]
  split <;> exact ⟨rfl, hg, rfl⟩

/-- Where nobody writes, the watch delivers its first listing, and has no news then. -/
theorem runFeed_solo (h : Solo memory source kv m s) (hc : s.store.closed = false)
    (id overlay : Nat) :
    (s.runFeed (feedOf source kv m id overlay) memory kv).store =
        s.store.deliver overlay (kv.get m) ∧
      (s.runFeed (feedOf source kv m id overlay) memory kv).gone = false := by
  have hwarned := h.warn ((kv.read (m.scan kv.scanRoot)).2.map .dropped)
  have hfold : s.fold kv (m.scan kv.scanRoot) =
      (kv.get m, s.warn ((kv.read (m.scan kv.scanRoot)).2.map .dropped)) := rfl
  obtain ⟨hstore, hgone, hmemories⟩ := deliver_open hwarned.gone hc overlay (kv.get m)
  simp only [runFeed, feedOf, hfold]
  generalize (s.warn _).deliver overlay (kv.get m) = s₁ at hstore hgone hmemories ⊢
  have hfind : s₁.memories.find? memory = some m := by rw [hmemories, hwarned.find?_memory]
  rw [hfind, Option.getD_some]
  split
  · exact ⟨hstore, hgone⟩
  · split
    · exact ⟨hstore, hgone⟩
    · rename_i l hl
      have hindex : l.index = (m.scan kv.scanRoot).index := index_of_answer? hl
      rw [Watch.onListing_same hindex]
      exact ⟨hstore, hgone⟩

/-- The overlay of a store with one overlay takes what is delivered to it. -/
theorem deliver_one {S B : Type} {s : Store S B} (hc : s.closed = false) {o : Overlay S}
    (ho : s.overlays = [o]) (t : Tree) :
    (s.deliver o.id t).base = s.base ∧
      (s.deliver o.id t).overlays = [{ o with data := t.normal }] := by
  unfold Store.deliver
  simp [hc, ho]

variable [BEq α]

/-- **The first delivery.**  Once the dispatcher and the watch have gone on, the overlay holds what
the source holds. -/
theorem settle_solo (h : Solo memory source kv m s) (hc : s.store.closed = false)
    {o : Overlay String} (ho : s.store.overlays = [o]) {id : Nat}
    (hj : s.jobs = [.dispatcher, .feed id]) (hf : s.feeds = [feedOf source kv m id o.id]) :
    s.settle.store.base = s.store.base ∧
      s.settle.store.overlays = [{ o with data := (kv.get m).normal }] ∧
      s.settle.jobs = [] ∧ s.settle.gone = false := by
  have hreceive := sameLayers_receive s.store
  have hsolo : Solo memory source kv m { s with jobs := [], store := s.store.receive } :=
    ⟨h.memories, h.origins, h.gone⟩
  have hfeed : (s.feeds.find? fun feed => feed.id == id) =
      some (feedOf source kv m id o.id) := by simp [hf, feedOf]
  have horigin : s.origins.find? (feedOf source kv m id o.id).source = some (.kv memory kv) :=
    h.find?_origin
  obtain ⟨hstore, hgone⟩ := runFeed_solo hsolo (hreceive.closed.trans hc) id o.id
  obtain ⟨hbase, hoverlays⟩ := deliver_one (hreceive.closed.trans hc)
    (hreceive.overlays.trans ho) (kv.get m)
  simp only [settle, hj, List.foldl_cons, List.foldl_nil, runJob, hfeed, horigin]
  rw [hgone, if_neg Bool.false_ne_true]
  have hround := (sameLayers_round (s.store.receive.deliver o.id (kv.get m))).trans
    (sameLayers_settle _)
  dsimp only
  rw [hstore]
  exact ⟨(hround.base.trans hbase).trans hreceive.base, hround.overlays.trans hoverlays, rfl, rfl⟩

/-- Where no task is woken, the overlays stay. -/
theorem settle_idle (hj : s.jobs = []) (hg : s.gone = false) :
    s.settle.store.base = s.store.base ∧ s.settle.store.overlays = s.store.overlays ∧
      s.settle.jobs = [] ∧ s.settle.gone = false := by
  have hround := (sameLayers_round s.store).trans (sameLayers_settle s.store.round)
  have hsettle : s.settle = { s with jobs := [], store := s.store.round.settle } := by
    simp [settle, hj, hg]
  rw [hsettle]
  exact ⟨hround.base, hround.overlays, rfl, hg⟩

/-! ### The run -/

/-- **The overlay settles.** -/
theorem overlays_settled (memory source : String) {defaults environment : Tree}
    (hkv : kv.closed = false)
    (hb : Kv.bootstrap (.ofBase (.ofTrees defaults environment) : Store String (Component α)) kv m =
      (.ok (), n)) (k : Nat) :
    let s := (start defaults environment [(memory, m)] [(source, .kv memory kv)] :
      Stage α).setUp [⟨source, true⟩]
    s.1 = .ok () ∧ (settle^[k + 1] s.2.watch).store.base = .ofTrees defaults environment ∧
      (settle^[k + 1] s.2.watch).store.overlays = [⟨0, source, (kv.get n).normal⟩] := by
  intro s
  obtain ⟨hok, hsolo, hbase, hclosed, hoverlays, hjobs, hfeeds⟩ :=
    setUp_watch_solo memory source hkv hb
  obtain ⟨hbase₁, hoverlays₁, hjobs₁, hgone₁⟩ := settle_solo hsolo hclosed hoverlays hjobs hfeeds
  have hrest : ∀ k, (settle^[k + 1] s.2.watch).store.base = s.2.watch.settle.store.base ∧
      (settle^[k + 1] s.2.watch).store.overlays = s.2.watch.settle.store.overlays ∧
      (settle^[k + 1] s.2.watch).jobs = [] ∧ (settle^[k + 1] s.2.watch).gone = false := by
    intro k
    induction k with
    | zero => exact ⟨rfl, rfl, hjobs₁, hgone₁⟩
    | succ k ih =>
        obtain ⟨hb, ho, hj, hg⟩ := ih
        rw [Function.iterate_succ_apply']
        obtain ⟨hb', ho', hj', hg'⟩ := settle_idle hj hg
        exact ⟨hb'.trans hb, ho'.trans ho, hj', hg'⟩
  exact ⟨hok, ((hrest k).1.trans hbase₁).trans hbase, (hrest k).2.1.trans hoverlays₁⟩

end Stage

end LiveConfig.Rehearsal
