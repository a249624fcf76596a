import MessageGraph.Proofs.Blueprint.Rebuild
import MessageGraph.Proofs.Graph.Undo
import MessageGraph.Proofs.Resolution.Redrawn

/-!
# Parting what was just joined

A new route may bring a tack and an origin, and the origins that reach it get further targets at the ends
of their tables. Removing it takes all of that away again: `disconnect_connect` says that graph and tables
are back, target by target, and that only the sequence of ids has moved on.

This is said of tables from scratch. Of patched ones it would not hold: they may have kept the key of a
top-level gate that is reached no more, and parting drops it (`Blueprint.live_tables_differ`).
-/
namespace MessageGraph

open MessageGraph.Graph (OneMore Redrawn)

namespace Tables

variable {g small big back : Graph} {t : Tables}

/-! ## One table -/

/-- The keys of a table lead back to its targets. -/
theorem restrict_keys {table : List Target} (hd : (table.map g.targetKey).Nodup) :
    restrict g (table.map g.targetKey) table = table := by
  have hfind : ∀ x ∈ table, table.find? (fun y => g.targetKey y = g.targetKey x) = some x := by
    intro x hx
    have hsome : (table.find? fun y => g.targetKey y = g.targetKey x).isSome = true :=
      List.find?_isSome.2 ⟨x, hx, by simp only [decide_true]⟩
    obtain ⟨y, hy⟩ := Option.isSome_iff_exists.1 hsome
    have hkey : g.targetKey y = g.targetKey x := by simpa using List.find?_some hy
    rw [hy, List.inj_on_of_nodup_map hd (List.mem_of_find?_eq_some hy) hx hkey]
  unfold restrict
  rw [List.filterMap_map]
  exact (List.filterMap_congr hfind).trans List.filterMap_some

/-- Keys that nothing is found for leave nothing. -/
theorem restrict_eq_nil {keys : List TargetKey} {found : List Target}
    (h : ∀ k ∈ keys, k ∉ found.map g.targetKey) : restrict g keys found = [] := by
  refine List.filterMap_eq_nil_iff.2 fun k hk => List.find?_eq_none.2 fun x hx hkey => ?_
  exact h k hk (List.mem_map.2 ⟨x, hx, by simpa using hkey⟩)

theorem restrict_append {keys more : List TargetKey} {found : List Target} :
    restrict g (keys ++ more) found = restrict g keys found ++ restrict g more found :=
  List.filterMap_append

/-- What an extension added goes when only the table itself is found again. -/
theorem restrict_extend {table found : List Target}
    (hkeys : table.map big.targetKey = table.map small.targetKey)
    (hd : (table.map small.targetKey).Nodup) :
    restrict small ((extend big table found).map big.targetKey) table = table := by
  unfold extend
  rw [List.map_append, restrict_append, hkeys, restrict_keys hd, restrict_eq_nil, List.append_nil]
  intro k hk
  obtain ⟨x, hx, rfl⟩ := List.mem_map.1 hk
  simpa using (List.mem_filter.1 hx).2

/-! ## All tables -/

section Extended

variable {route : Id} {r : Route} {s : Endpoint} (h : OneMore small big route r) (w : small.WellFormed)
  (hs : big.sender? route = some s) (hback : Redrawn small back)

include h w hs hback

/-- What is left of the table of an origin that reaches the route is what it had, and nothing of one that is
an origin with the route alone. -/
theorem remaining_extended {o : Endpoint} (hmem : o ∈ big.originsReaching s) :
    ((build small).extended big route).remaining big back o =
      if small.isOrigin o then small.resolve o else [] := by
  unfold remaining
  by_cases ho : small.isOrigin o = true
  · have hlive : back.contains o = true := by
      rw [hback.contains_eq]
      exact Graph.contains_of_direction (Graph.output_of_isOrigin ho)
    have hkeys : (small.resolve o).map big.targetKey = (small.resolve o).map small.targetKey := by
      have hgrown := ((build_of small).sound w).keys_grown (h.grown w) o
      rwa [keys, keys, get_build ho] at hgrown
    have hrestrict : restrict back = restrict small := by
      funext keys found
      unfold restrict
      rw [hback.targetKey_eq]
    rw [if_pos hlive, if_pos ho, get_extended hs, if_pos hmem, get_build ho, hback.resolve_eq, hrestrict]
    exact restrict_extend hkeys (Graph.nodup_keys_firstByKey _)
  · -- what is an origin with the route alone is its new tack, and goes with it
    have hgone : ¬ back.contains o = true := fun hlive => ho <| by
      rw [hback.contains_eq] at hlive
      exact (h.grown w).isOrigin_of_contains (Graph.isOrigin_of_mem_originsReaching hmem) hlive
    rw [if_neg hgone, if_neg ho]

/-- Tables from scratch, extended by a new route and restricted again when it goes, are what they were. -/
theorem parted_extended : ((build small).extended big route).parted big back s = build small := by
  refine ext_table? fun o => ?_
  have horigins : ∀ e, e ∈ big.originsReaching s → big.isOrigin e = true :=
    fun _ => Graph.isOrigin_of_mem_originsReaching
  unfold parted
  rw [table?_foldl_set _ o horigins]
  by_cases hmem : o ∈ big.originsReaching s
  · rw [if_pos hmem, remaining_extended h w hs hback hmem, table?_build]
    split
    · rfl
    · exact if_pos rfl
  · rw [if_neg hmem]
    unfold extended
    rw [hs]
    exact (table?_foldl_set _ o horigins).trans (if_neg hmem)

end Extended

end Tables

namespace Blueprint

open MessageGraph.Tables (build)

variable {b : Blueprint} {x y : Terminal} {route : Id} {g' : Graph} {t' : Tables}

/-- Removing a route that was just made succeeds and gives back the graph, but for the ids given out, and
the tables: the same origins with the same targets in the same order. -/
theorem disconnect_connect (hb : b.Reachable)
    (hc : (build b.graph).connect b.graph x y = .ok (route, g', t'))
    (hnew : b.graph.route? route = none) :
    t'.disconnect? g' route = some ({ b.graph with nextId := g'.nextId }, build b.graph) := by
  obtain ⟨hcheck, ⟨hold, -, -⟩ | ⟨-, hat, rfl⟩⟩ := Tables.connect_eq hc
  · obtain ⟨r, hr⟩ := Graph.route?_of_existingRoute? hold
    rw [hnew] at hr
    cases hr
  · have w := hb.wellFormed
    have hj := Graph.joinable_of_check hcheck
    obtain ⟨r, hone⟩ := Graph.attach_oneMore w.ids hat
    obtain ⟨s, hs⟩ := hone.exists_sender
    rw [Tables.disconnect?_eq, hs, Option.map_some, w.detach_attach hat hj,
      Tables.parted_extended hone w hs (.of_nextId _ _)]

/-- The route that leads on from the top-level gate, and is removed: between, the gate keeps its key and
the pin behind it comes to it. -/
theorem disconnect_connect_ledOn :
    ∃ g' t', (build ((new "main").run ledOn.dropLast).graph).connect
        ((new "main").run ledOn.dropLast).graph (.pad 4) (.pin 6) = .ok (8, g', t') ∧
      t'.get (.pin 3) = [.boundary 1 4, .pin 5 6] ∧
      t'.disconnect? g' 8 = some
        ({ ((new "main").run ledOn.dropLast).graph with nextId := g'.nextId },
          build ((new "main").run ledOn.dropLast).graph) := by
  have hc : ((build ((new "main").run ledOn.dropLast).graph).connect
      ((new "main").run ledOn.dropLast).graph (.pad 4) (.pin 6)).toOption.map
        (fun c => (c.1, c.2.2.get (.pin 3))) = some (8, [.boundary 1 4, .pin 5 6]) := by cbv
  obtain ⟨⟨route, g', t'⟩, hok, hval⟩ := Option.map_eq_some_iff.1 hc
  obtain ⟨rfl, hget⟩ := Prod.mk.inj hval
  have hb : ((new "main").run ledOn.dropLast).Reachable := .run_new "main" rfl
  exact ⟨g', t', of_toOption hok, hget, disconnect_connect hb (of_toOption hok) (by cbv)⟩

end Blueprint

end MessageGraph
