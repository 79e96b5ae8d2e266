/-
Side chains that are tracked side by side do not show in one another.

Looking at one chain only, its loop and its share of the store, a step of its own loop is
the step that the loop takes when it works on this share and nothing else, and a step of
any other loop is no step at all. The first is so since a tracker gets by with the share
of its chain, the second since it spares the shares of all others. So of any turns only
the chain's own matter to it, and they come out as if the chain were the only one. This
rests on the addresses of the chains, of which no two are the same where a configuration
was loaded.
-/
import MergedMining.Proofs.Config
import MergedMining.Proofs.Sync.Share
import MergedMining.Tracking

namespace MergedMining

open CatchUp Sync

/-- No two side chains that are tracked have an address in common. -/
theorem Config.nodup_trackers {lookup : String → Option String} {config : Config}
    (h : Config.load lookup = .ok config) : (config.trackers.map (·.address)).Nodup := by
  rw [trackers, List.map_map, List.Nodup, List.pairwise_map]
  exact (apart_of_check (check_of_load h)).imp fun happart => happart.address

namespace Tracking

-- ================================================================== one chain

/-- The loop at a position and the share of a chain, as if there were no others. -/
def only (n : Nat) (address : String) (s : Tracking) : Tracking where
  store := s.store.share address
  syncers := s.syncers[n]?.toList

/-- The turns of the loop at a position, which is the first if there are no others. -/
def own (n : Nat) (turns : List Turn) : List Turn :=
  (turns.filter (·.position = n)).map fun turn => { turn with position := 0 }

/-- How the loop at a position and the share of a chain are after each of the loop's turns. -/
def views (n : Nat) (address : String) : List Turn → Tracking → List Tracking
  | [], _ => []
  | turn :: turns, s =>
      if turn.position = n then
        (s.step turn).only n address :: views n address turns (s.step turn)
      else views n address turns (s.step turn)

-- ==================================================================== invariant

variable {s : Tracking} {trackers : List Tracker} {t : Tracker} {n : Nat} {turn : Turn}

/-- The trackers are where they were at the start, and each has its own effects at hand. -/
structure Kept (trackers : List Tracker) (s : Tracking) : Prop where
  tracker (m : Nat) : s.syncers[m]?.map (·.tracker) = trackers[m]?
  planned {m : Nat} {syncer : Syncer} (h : s.syncers[m]? = some syncer) :
    syncer.loop.Planned syncer.tracker.Owns

/-- At the start each tracker is in its place and has no effects at hand. -/
private theorem kept_start (trackers : List Tracker) (store : SideStore) :
    Kept trackers (start trackers store) where
  tracker m := by
    rw [start, List.getElem?_map, Option.map_map]
    exact Option.map_id_fun' ▸ rfl
  planned h := by
    obtain ⟨t, -, rfl⟩ := Option.map_eq_some_iff.1 (List.getElem?_map.symm.trans h)
    exact trivial

private theorem step_of_none (h : s.syncers[turn.position]? = none) : s.step turn = s := by
  rw [step, h]

/-- The step of a loop. -/
theorem step_of_some {syncer : Syncer} (h : s.syncers[turn.position]? = some syncer) :
    s.step turn = {
      store := (syncer.loop.step syncer.tracker.follower turn.now s.store).1
      syncers := s.syncers.set turn.position { syncer with
        loop := (syncer.loop.step syncer.tracker.follower turn.now s.store).2 } } := by
  rw [step, h]

namespace Kept

/-- A turn leaves each tracker in its place, with its own effects at hand. -/
private theorem step (hs : Kept trackers s) (turn : Turn) : Kept trackers (s.step turn) := by
  cases hsyncer : s.syncers[turn.position]? with
  | none =>
      rw [step_of_none hsyncer]
      exact hs
  | some syncer =>
      have hlt := (List.getElem?_eq_some_iff.1 hsyncer).1
      rw [step_of_some hsyncer]
      refine ⟨fun m => ?_, fun {m other} hother => ?_⟩
      · rw [← hs.tracker]
        by_cases hm : turn.position = m
        · subst hm
          rw [List.getElem?_set_self hlt, hsyncer]
          rfl
        · rw [List.getElem?_set_ne hm]
      · by_cases hm : turn.position = m
        · subst hm
          obtain rfl := Option.some.inj ((List.getElem?_set_self hlt).symm.trans hother)
          exact Loop.Planned.step syncer.tracker.plans (hs.planned hsyncer) _ _
        · exact hs.planned ((List.getElem?_set_ne hm).symm.trans hother)

/-- At a position where there is a tracker there is its loop. -/
theorem exists_loop (hs : Kept trackers s) (ht : trackers[n]? = some t) :
    ∃ loop, s.syncers[n]? = some ⟨t, loop⟩ ∧ loop.Planned t.Owns := by
  obtain ⟨⟨_, loop⟩, hsyncer, rfl⟩ := Option.map_eq_some_iff.1 ((hs.tracker n).trans ht)
  exact ⟨loop, hsyncer, hs.planned hsyncer⟩

-- ======================================================================= steps

/-- A step leaves the shares of all chains but its own as they are. -/
theorem spares (hs : Kept trackers s) {address : String}
    (hne : ∀ u, trackers[turn.position]? = some u → u.address ≠ address) :
    (s.step turn).store.share address = s.store.share address := by
  cases hsyncer : s.syncers[turn.position]? with
  | none => rw [step_of_none hsyncer]
  | some syncer =>
      have htracker := hs.tracker turn.position
      rw [hsyncer] at htracker
      rw [step_of_some hsyncer]
      exact (syncer.tracker.spares_share (hne _ htracker.symm)).loop (hs.planned hsyncer) _ _

/-- A turn of another loop does not show in what a chain sees. -/
private theorem only_step_of_ne (hs : Kept trackers s) (hnodup : (trackers.map (·.address)).Nodup)
    (ht : trackers[n]? = some t) (hne : turn.position ≠ n) :
    (s.step turn).only n t.address = s.only n t.address := by
  have hshare : (s.step turn).store.share t.address = s.store.share t.address := by
    refine hs.spares fun u hu heq => hne ?_
    have hlt := (List.getElem?_eq_some_iff.1 hu).1
    have hsame : (trackers.map (·.address))[turn.position]? = (trackers.map (·.address))[n]? := by
      rw [List.getElem?_map, List.getElem?_map, hu, ht]
      exact congrArg some heq
    exact (List.getElem?_inj (by rwa [List.length_map]) hnodup).1 hsame
  have hsyncer : (s.step turn).syncers[n]? = s.syncers[n]? := by
    cases hother : s.syncers[turn.position]? with
    | none => rw [step_of_none hother]
    | some other =>
        rw [step_of_some hother]
        exact List.getElem?_set_ne hne
  rw [only, only, hshare, hsyncer]

/-- A turn of the chain's own loop is the step that it takes alone. -/
private theorem only_step_self (hs : Kept trackers s) (ht : trackers[n]? = some t)
    (now : Moment Node.Block) :
    (s.step ⟨n, now⟩).only n t.address = (s.only n t.address).step ⟨0, now⟩ := by
  obtain ⟨loop, hsyncer, hplanned⟩ := hs.exists_loop ht
  have hlt := (List.getElem?_eq_some_iff.1 hsyncer).1
  have halone : (s.only n t.address).syncers[0]? = some ⟨t, loop⟩ := by
    rw [only, hsyncer]
    rfl
  have hstep : s.step ⟨n, now⟩ = _ := step_of_some hsyncer
  have hstep' : (s.only n t.address).step ⟨0, now⟩ = _ := step_of_some halone
  rw [hstep, hstep']
  dsimp only [only]
  rw [List.getElem?_set_self hlt, hsyncer, t.within_share.loop hplanned]
  rfl

end Kept

-- ======================================================================== runs

private theorem own_cons_self (n : Nat) (now : Moment Node.Block) (turns : List Turn) :
    own n (⟨n, now⟩ :: turns) = ⟨0, now⟩ :: own n turns := by
  simp [own]

private theorem own_cons_of_ne (hne : turn.position ≠ n) (turns : List Turn) :
    own n (turn :: turns) = own n turns := by
  simp [own, hne]

/-- If two runs look the same to a chain at the start, and its loop takes the same turns in
both, they look the same to it ever after. -/
theorem Kept.views_eq {s' : Tracking} {trackers' : List Tracker} (hs : Kept trackers s)
    (hs' : Kept trackers' s') (hnodup : (trackers.map (·.address)).Nodup)
    (ht : trackers[n]? = some t) (ht' : trackers'[0]? = some t)
    (hsame : s.only n t.address = s'.only 0 t.address) (turns : List Turn) :
    views n t.address turns s = views 0 t.address (own n turns) s'
      ∧ (run turns s).only n t.address = (run (own n turns) s').only 0 t.address := by
  induction turns generalizing s s' with
  | nil => exact ⟨rfl, hsame⟩
  | cons turn turns ih =>
      obtain ⟨m, now⟩ := turn
      by_cases hown : m = n
      · obtain rfl := hown
        have hnext : (s.step ⟨m, now⟩).only m t.address = (s'.step ⟨0, now⟩).only 0 t.address := by
          rw [hs.only_step_self ht, hs'.only_step_self ht', hsame]
        obtain ⟨hviews, hrun⟩ := ih (hs.step _) (hs'.step _) hnext
        rw [own_cons_self, views, if_pos rfl, views, if_pos rfl, hnext, hviews]
        exact ⟨rfl, hrun⟩
      · have hnext : (s.step ⟨m, now⟩).only n t.address = s'.only 0 t.address :=
          (hs.only_step_of_ne hnodup ht hown).trans hsame
        rw [own_cons_of_ne hown, views, if_neg hown]
        exact ih (hs.step _) hs' hnext

/-- After any turns the trackers are in their places. -/
private theorem Kept.run (hs : Kept trackers s) (turns : List Turn) :
    Kept trackers (run turns s) := by
  induction turns generalizing s with
  | nil => exact hs
  | cons turn turns ih => exact ih (hs.step turn)

/-- A side chain that is tracked among others gets the cursors and the rows of outputs that it
would get alone, on the same store and with the same answers and cancellations: after each of
its turns, and after any turns. No turn of another changes its share of the store, and none of
its own changes another share. -/
theorem tracked_alone {lookup : String → Option String} {config : Config}
    (hload : Config.load lookup = .ok config) {n : Nat} {t : Tracker}
    (ht : config.trackers[n]? = some t) (store : SideStore) (turns : List Turn) :
    let together := start config.trackers store
    let alone := start [t] store
    views n t.address turns together = views 0 t.address (own n turns) alone
      ∧ (run turns together).only n t.address = (run (own n turns) alone).only 0 t.address
      ∧ (∀ turn, turn.position ≠ n →
          ((run turns together).step turn).store.share t.address
            = (run turns together).store.share t.address)
      ∧ ∀ now address, address ≠ t.address →
          ((run turns together).step ⟨n, now⟩).store.share address
            = (run turns together).store.share address := by
  intro together alone
  have hnodup := Config.nodup_trackers hload
  have htogether : Kept config.trackers together := kept_start _ store
  have halone : Kept [t] alone := kept_start _ store
  have hsame : together.only n t.address = alone.only 0 t.address := by
    show only n t.address ⟨store, config.trackers.map _⟩ = only 0 t.address ⟨store, [t].map _⟩
    rw [only, only, List.getElem?_map, ht]
    rfl
  obtain ⟨hviews, hrun⟩ := htogether.views_eq halone hnodup ht rfl hsame turns
  refine ⟨hviews, hrun, fun turn hne => ?_, fun now address hne => ?_⟩
  · exact congrArg Tracking.store ((htogether.run turns).only_step_of_ne hnodup ht hne)
  · refine (htogether.run turns).spares fun u hu => ?_
    obtain rfl := Option.some.inj (ht.symm.trans hu)
    exact hne.symm

/-- Two side chains on which the same address is watched. -/
def sampleConfig : Config where
  dataDir := "./data"
  interval := 1000
  timeout := 10
  maturity := 100
  sideChains := [⟨"a", "XA", Digest.zero, "http://a", ["watched"]⟩,
    ⟨"b", "XB", ⟨List.replicate 32 17, rfl⟩, "http://b", ["watched"]⟩]
  mainUrl := none

/-- They are listed as the fields of each, in order. -/
def sampleLookup (key : String) : Option String :=
  if key = Config.sideChainsKey then
    some ("[[\"a\",\"XA\",\"" ++ String.ofList (List.replicate 64 '0')
      ++ "\",\"http://a\",[\"watched\"]],[\"b\",\"XB\",\""
      ++ String.ofList (List.replicate 64 '1') ++ "\",\"http://b\",[\"watched\"]]]")
  else none

/-- The tokens of a side chain in the list. -/
private def listedTokens (name address : String) (digit : Char) (url : String) :
    List Json.Token :=
  [.arrayStart, .scalar (.text name), .comma, .scalar (.text address), .comma,
    .scalar (.text (String.ofList (List.replicate 64 digit))), .comma, .scalar (.text url), .comma,
    .arrayStart, .scalar (.text "watched"), .arrayEnd, .arrayEnd]

set_option maxRecDepth 10000 in
/-- The list is read as the two side chains. Its characters are brought out of the text first,
since a text's own bytes take longer to decode than all of them to read. -/
private theorem listed_sample : Config.listed sampleLookup = .ok sampleConfig.sideChains := by
  obtain ⟨text, hlookup, htokens⟩ : ∃ text, sampleLookup Config.sideChainsKey = some text
      ∧ Json.Token.ofText? text = some (.arrayStart :: listedTokens "a" "XA" '0' "http://a"
        ++ .comma :: listedTokens "b" "XB" '1' "http://b" ++ [.arrayEnd]) := by
    refine ⟨_, if_pos rfl, ?_⟩
    rw [Json.Token.ofText?]
    simp only [String.toList_append, String.toList_ofList]
    rfl
  have hparse : (JsonForm.parse text : Except FormError (List SideChain))
      = .ok sampleConfig.sideChains := by
    rw [JsonForm.parse, JsonValue.parse?, htokens]
    exact Outcome.eq_ok_of_toOption (by decide +kernel)
  rw [Config.listed, hlookup]
  exact congrArg (Except.mapError _) hparse

/-- The sample is loaded from its variables. -/
private theorem load_sample : Config.load sampleLookup = .ok sampleConfig := by
  have hnone {key : String} (h : key ≠ Config.sideChainsKey) : sampleLookup key = none := if_neg h
  have hcheck : sampleConfig.check = .ok () := Outcome.eq_ok_of_toOption (by decide +kernel)
  rw [Config.load, listed_sample, Config.number, Config.number, Config.number,
    hnone (by decide : Config.intervalKey ≠ _), hnone (by decide : Config.timeoutKey ≠ _),
    hnone (by decide : Config.maturityKey ≠ _), hnone (by decide : Config.dataDirKey ≠ _),
    hnone (by decide : Config.mainUrlKey ≠ _)]
  show (do sampleConfig.check; pure sampleConfig) = _
  rw [hcheck]
  rfl

/-- A node with one block, in which one output is paid and these are spent. -/
def sampleMoment (spent : List Node.Input) : Moment Node.Block :=
  ⟨.arrived 1, .arrived ⟨"", 0, [⟨"coin", 0, spent, [⟨"1.5", 0, "watched", 0⟩]⟩]⟩, false⟩

/-- Both chains record an output of one name, and the second spends it. -/
def sampleTurns : List Turn :=
  [0, 1, 0, 1, 0, 1, 0, 1, 0, 1, 1].map fun n =>
    ⟨n, sampleMoment (if n = 0 then [] else [⟨"coin", 0, 0⟩])⟩

/-- The names of the outputs that are there after these turns. -/
def sampleKeys (turns : List Turn) : List (String × Int × String) :=
  (run turns (start sampleConfig.trackers Store.create)).store.tables.utxos.map UtxoRow.key

/-- The tracker of the first. -/
def sampleTracker : Tracker := ⟨"a", "XA", ["watched"], 100⟩

/-- Two chains hold an output under one outpoint, and when one of them spends its own the other
keeps its row. -/
theorem tracked_alone_same_outpoint :
    Config.load sampleLookup = .ok sampleConfig
      ∧ sampleConfig.trackers[0]? = some sampleTracker
      ∧ sampleKeys (sampleTurns.take 8) = [("coin", 0, "XA"), ("coin", 0, "XB")]
      ∧ sampleKeys sampleTurns = [("coin", 0, "XA")]
      ∧ (run sampleTurns (start sampleConfig.trackers Store.create)).only 0 "XA"
        = (run (own 0 sampleTurns) (start [sampleTracker] Store.create)).only 0 "XA" := by
  have htracker : sampleConfig.trackers[0]? = some sampleTracker := rfl
  obtain ⟨-, halone, -, -⟩ := tracked_alone load_sample htracker Store.create sampleTurns
  exact ⟨load_sample, htracker, by decide, by decide, halone⟩

end Tracking

end MergedMining
