import P256Index.Archive.Export
import P256Index.Archive.Replay

/-!
# From one chain to another

The tool's three commands work on one file of rows. `export` writes the raw input of a transaction
as text; `verify` and `replay` send that text on to a node, which reads it as bytes. `Row.payload`
is what the node makes of a row.

`archive_recovers` puts `export` and `replay` together: what the one has archived of a chain, the
other leaves in the target registry.
-/

namespace P256Index.Archive

open Contract (Evm Domain Registry)
open Contract.Verify (Settled)
open Replay (Against replay refers)

/-- The row as a node reads it. -/
def Row.payload (row : Row) : Option Contract.Verify.Row :=
  (Hex.decodeChars (trimMarkers row.input.toList)).map fun input => ⟨row.txHash, row.kind, input⟩

/-- The payload of a transaction of some kind. -/
def Transaction.payload (t : Transaction) (kind : Contract.Verify.Kind) : Contract.Verify.Row :=
  ⟨t.hash, kind, t.input⟩

theorem Transaction.row_payload {t : Transaction} {row : Row} (h : t.row = some row) :
    ∃ kind, writeKind t.input = some kind ∧ row.payload = some (t.payload kind) := by
  obtain ⟨kind, hkind, rfl⟩ := Option.map_eq_some_iff.mp h
  refine ⟨kind, hkind, ?_⟩
  rw [Row.payload, trimMarkers_inputText, Hex.decodeChars_encodeChars]
  rfl

/-- Every row of an archive is read, as the payload of its transaction. -/
theorem Archives.exists_payloads {c : Chain} {first last : Nat} {rows : List Row}
    (h : Archives c first last rows) : ∃ payloads, rows.mapM Row.payload = some payloads ∧
      ∀ p, p ∈ payloads ↔ ∃ t ∈ c.writes, first ≤ t.block ∧ t.block ≤ last ∧
        ∃ kind, writeKind t.input = some kind ∧ p = t.payload kind := by
  have heach : ∀ row ∈ rows, ∃ p, row.payload = some p ∧ row.payload = some p := by
    intro row hrow
    obtain ⟨t, -, -, -, hrow⟩ := (h.mem_iff row).mp hrow
    obtain ⟨kind, -, hpayload⟩ := Transaction.row_payload hrow
    exact ⟨_, hpayload, hpayload⟩
  obtain ⟨payloads, hmapM, hpairs⟩ := exists_mapM heach
  refine ⟨payloads, hmapM, fun p => ⟨fun hp => ?_, ?_⟩⟩
  · obtain ⟨row, hrow, hp⟩ := exists_of_forall₂_right hpairs hp
    obtain ⟨t, ht, hfirst, hlast, hrow⟩ := (h.mem_iff row).mp hrow
    obtain ⟨kind, hkind, hpayload⟩ := Transaction.row_payload hrow
    exact ⟨t, ht, hfirst, hlast, kind, hkind, Option.some.inj (hp.symm.trans hpayload)⟩
  · rintro ⟨t, ht, hfirst, hlast, kind, hkind, rfl⟩
    have hsome : t.row = some ⟨t.hash, t.block, t.index, kind, inputText t.input⟩ := by
      rw [Transaction.row, hkind]
      rfl
    obtain ⟨kind', hkind', hpayload⟩ := Transaction.row_payload hsome
    obtain ⟨p, hp, hread⟩ :=
      exists_of_forall₂_left hpairs ((h.mem_iff _).mpr ⟨t, ht, hfirst, hlast, hsome⟩)
    cases hkind.symm.trans hkind'
    cases hread.symm.trans hpayload
    exact hp

/-- What one chain held can be put on another. An export from the beginning that went through has
written a file of rows, each of which a node reads. Wherever these rows are replayed, in any order
and onto any state of a registry, a replay that went through leaves every direct write of the
exported blocks settled: its call would repeat what the registry holds. -/
theorem archive_recovers (c : Chain) (hdeployed : 1 ≤ c.deployed) (toBlock : Option Nat)
    (hend : c.deployed ≤ toBlock.getD c.latest) (hword : toBlock.getD c.latest < 2 ^ 63)
    {tr : Trace} (hrun : (exportArchive none toBlock).Runs tr (.ok ())) (htruth : c.Truthful tr) :
    ∃ before rows payloads, tr = before ++ [⟨.write rows, .ok ()⟩] ∧
      rows.mapM Row.payload = some payloads ∧
      ∀ (E : Evm) (d : Domain) (s s' : Registry) limit seed tr' tally, Contract.Reachable E d s →
        (∀ t ∈ c.writes, ∀ kind, writeKind t.input = some kind → (t.payload kind).Honest E) →
        (refers payloads).length + 2 ≤ limit → (replay limit payloads seed).Runs tr' (.ok tally) →
        Against E d s tr' s' →
          ∀ t ∈ c.writes, c.deployed ≤ t.block → t.block ≤ toBlock.getD c.latest →
            ∀ kind, writeKind t.input = some kind → Settled E s' (t.payload kind) := by
  obtain ⟨-, ⟨error, herror⟩ | ⟨before, rows, htrace, -, harchives⟩⟩ :=
    exportArchive_ends c hdeployed toBlock hend hword hrun htruth
  · cases herror
  obtain ⟨payloads, hmapM, hmem⟩ := harchives.exists_payloads
  refine ⟨before, rows, payloads, htrace, hmapM, ?_⟩
  intro E d s s' limit seed tr' tally hs hhonest hlimit hreplay hagainst t ht hfirst
    hlast kind hkind
  have hrows : ∀ p ∈ payloads, p.Honest E := by
    intro p hp
    obtain ⟨t', ht', -, -, kind', hkind', rfl⟩ := (hmem p).mp hp
    exact hhonest t' ht' kind' hkind'
  have hsettled := Replay.settled_of_replay (by omega) hs hrows hreplay hagainst
  exact hsettled _ ((hmem _).mpr ⟨t, ht, hfirst, hlast, kind, hkind, rfl⟩)

namespace Sample

open Contract.Sample
  (evm domain registerData referData referred decode_registerData decode_referData)

/-- The two writes of the chain as a node reads them from the archive. -/
def payloads : List Contract.Verify.Row :=
  [⟨"0x01", .register, registerData⟩, ⟨"0x02", .refer, referData⟩]

theorem mapM_payload : rows.mapM Row.payload = some payloads := by
  simp [rows, payloads, Row.payload, trimMarkers_inputText, Hex.decodeChars_encodeChars]

theorem honest_payload :
    ∀ t ∈ chain.writes, ∀ kind, writeKind t.input = some kind → (t.payload kind).Honest evm := by
  refine List.forall_mem_cons.mpr ⟨?_, List.forall_mem_singleton.mpr ?_⟩
  · intro kind hkind c hdecode
    cases writeKind_registerData.symm.trans hkind
    cases decode_registerData.symm.trans hdecode
    exact ⟨rfl, decode_registerData⟩
  · intro kind hkind c hdecode
    cases writeKind_referData.symm.trans hkind
    cases decode_referData.symm.trans hdecode
    exact ⟨rfl, decode_referData⟩

theorem replay_payloads : (replay 3 payloads none).Runs Replay.Sample.trace (.ok ⟨2, 0, []⟩) := by
  apply Prog.runs_iff_replay.mpr
  decide +kernel

end Sample

/-- The recorded history is exported from its chain and replayed onto a fresh registry. -/
theorem archive_recovers_sample : ∃ tr, (exportArchive none none).Runs tr (.ok ()) ∧
    Settled Contract.Sample.evm Contract.Sample.referred
      ⟨"0x01", .register, Contract.Sample.registerData⟩ ∧
    Settled Contract.Sample.evm Contract.Sample.referred
      ⟨"0x02", .refer, Contract.Sample.referData⟩ := by
  obtain ⟨start, hrun, htruth, -⟩ := Sample.exists_runs_export
  obtain ⟨before, rows, payloads, htrace, hmapM, hsettled⟩ :=
    archive_recovers Sample.chain (by decide) none (by decide) (by decide) hrun htruth
  cases (List.append_inj' htrace rfl).2
  cases Sample.mapM_payload.symm.trans hmapM
  have hall :=
    hsettled _ _ _ _ 3 none _ _ .empty Sample.honest_payload (by decide) Sample.replay_payloads
    Replay.Sample.against_trace
  refine ⟨_, hrun, ?_, ?_⟩
  · exact hall _ List.mem_cons_self (by decide) (by decide) _ Sample.writeKind_registerData
  · exact hall _ (List.mem_cons_of_mem _ List.mem_cons_self) (by decide) (by decide) _
      Sample.writeKind_referData

end P256Index.Archive
