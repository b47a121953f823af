/-
What the packing of a writer puts into its datagrams.

Whatever the budget makes of the datagram boundaries, a submessage in them is the
destination, a timestamp, or carries one of the changes asked for.
-/

import Astrs.Base.Effect
import Astrs.Rtps.Writer

namespace Astrs.Rtps

open Astrs.Base Astrs.Cdr List

def Submessage.sampleNumber : Submessage → Option Int
  | .data body => some body.writerSn
  | .dataFrag body => some body.writerSn
  | _ => none

namespace RtpsWriter

/-- What may stand in a datagram for a reader that carries the changes asked for. -/
inductive Carries (writer : RtpsWriter) (reader : Addressee) (asked : CacheChange → Prop) :
    Submessage → Prop
  | destination : Carries writer reader asked
      (.infoDestination { guidPrefix := reader.readerPrefix })
  | timestamp (body : InfoTimestamp) : Carries writer reader asked (.infoTimestamp body)
  | data {change : CacheChange} (among : asked change) :
      Carries writer reader asked (.data (writer.dataFor change reader.readerId))
  | fragment {change : CacheChange} (among : asked change) {body : DataFrag}
      (numbered : body.writerSn = change.sequenceNumber) :
      Carries writer reader asked (.dataFrag body)

/-- The datagrams so far, and the one being packed. -/
def Packed (writer : RtpsWriter) (reader : Addressee) (asked : CacheChange → Prop)
    (packing : Packing) : Prop :=
  (∀ out ∈ packing.outbound, ∀ submessage ∈ out.message.submessages,
      writer.Carries reader asked submessage) ∧
    ∀ submessage ∈ packing.builder.submessages, writer.Carries reader asked submessage

theorem send_ok {locators : List Locator} {message : Message} {out : Outbound}
    (sent : Outbound.send locators message = .ok out) :
    out = { locators := locators, message := message } := by
  unfold Outbound.send at sent
  split at sent
  · cases sent
    rfl
  · cases sent

theorem writerSn_fragmentsFrom {readerId writerId : EntityId} {seq : Int} {payload : Bytes}
    {plan : FragmentPlan} {perDatagram fuel next : Nat} {fragments : List DataFrag}
    (cut : fragmentsFrom readerId writerId seq payload plan perDatagram fuel next = .ok fragments) :
    ∀ fragment ∈ fragments, fragment.writerSn = seq := by
  induction fuel generalizing next fragments with
  | zero =>
    cases cut
    exact forall_mem_nil _
  | succ fuel ih =>
    unfold fragmentsFrom at cut
    split at cut
    · cases cut
      exact forall_mem_nil _
    · obtain ⟨_,_,others⟩ := bind_ok cut
      obtain ⟨_,later,same⟩ := bind_ok others
      cases same
      exact forall_mem_cons.mpr ⟨rfl,ih later⟩

variable {writer : RtpsWriter} {reader : Addressee} {asked : CacheChange → Prop}
  {packing after : Packing} {change : CacheChange} {numbers : List Int} {outbound : List Outbound}

theorem fragmentDatagrams_carry (among : asked change)
    (cut : writer.fragmentDatagrams change reader = .ok outbound) :
    ∀ out ∈ outbound, ∀ submessage ∈ out.message.submessages,
      writer.Carries reader asked submessage := by
  obtain ⟨_,sampled,sent⟩ := bind_ok cut
  obtain ⟨_,_,fragments⟩ := bind_ok sampled
  intro out mem submessage there
  obtain ⟨fragment,present,sending⟩ := mem_of_mapM_ok sent mem
  rw [send_ok sending] at there
  rcases mem_append.mp there with first | last
  · rcases mem_append.mp first with destination | stamped
    · rw [mem_singleton.mp destination]
      exact .destination
    · obtain ⟨_,-,same⟩ := Option.map_eq_some_iff.mp (Option.mem_toList.mp stamped)
      rw [← same]
      exact .timestamp _
  · rw [mem_singleton.mp last]
    exact .fragment among (writerSn_fragmentsFrom fragments fragment present)

section

variable (packed : writer.Packed reader asked packing)
include packed

theorem Packed.pushed {submessage : Submessage} (carries : writer.Carries reader asked submessage) :
    writer.Packed reader asked (pushed packing submessage) :=
  ⟨packed.1,forall_mem_append.mpr ⟨packed.2,forall_mem_singleton.mpr carries⟩⟩

theorem Packed.flush (flushed : writer.flush reader packing = .ok after) :
    writer.Packed reader asked after := by
  unfold RtpsWriter.flush at flushed
  dsimp only at flushed
  split at flushed
  · cases flushed
    exact packed
  · obtain ⟨_,sending,done⟩ := bind_ok flushed
    cases done
    rw [send_ok sending]
    constructor
    · exact forall_mem_append.mpr ⟨packed.1,forall_mem_singleton.mpr packed.2⟩
    · exact forall_mem_singleton.mpr .destination

theorem Packed.flushStamped (flushed : writer.flushStamped reader packing = .ok after) :
    writer.Packed reader asked after := by
  obtain ⟨_,done,same⟩ := bind_ok flushed
  cases same
  have kept := packed.flush done
  exact ⟨kept.1,kept.2⟩

theorem Packed.stamp (stamped : writer.stamp reader change packing = .ok after) :
    writer.Packed reader asked after := by
  unfold RtpsWriter.stamp at stamped
  split at stamped
  · cases stamped
    exact packed
  · split at stamped
    · cases stamped
      exact packed
    · dsimp only at stamped
      split at stamped
      · cases stamped
        exact packed.pushed (.timestamp _)
      · obtain ⟨_,flushed,same⟩ := bind_ok stamped
        cases same
        exact (packed.flush flushed).pushed (.timestamp _)

theorem Packed.packData (among : asked change)
    (done : writer.packData reader change packing = .ok after) :
    writer.Packed reader asked after := by
  unfold RtpsWriter.packData at done
  dsimp only at done
  split at done
  · cases done
    exact packed.pushed (.data among)
  · obtain ⟨_,flushed,same⟩ := bind_ok done
    cases same
    refine Packed.pushed ?_ (.data among)
    cases change.sourceTimestamp with
    | none => exact packed.flushStamped flushed
    | some => exact (packed.flushStamped flushed).pushed (.timestamp _)

theorem Packed.packChange (among : asked change)
    (done : writer.packChange reader change packing = .ok after) :
    writer.Packed reader asked after := by
  unfold RtpsWriter.packChange at done
  split at done
  · obtain ⟨_,flushed,cutting⟩ := bind_ok done
    obtain ⟨_,cut,same⟩ := bind_ok cutting
    cases same
    have first := packed.flushStamped flushed
    exact ⟨forall_mem_append.mpr ⟨first.1,fragmentDatagrams_carry among cut⟩,first.2⟩
  · obtain ⟨_,stamping,rest⟩ := bind_ok done
    obtain ⟨_,packing,closing⟩ := bind_ok rest
    have through := (packed.stamp stamping).packData among packing
    split at closing
    · exact through.flushStamped closing
    · cases closing
      exact through

theorem Packed.packAll (all : ∀ seq ∈ numbers, ∀ change,
      writer.cache.get seq = some change → asked change)
    (done : writer.packAll reader numbers packing = .ok after) :
    writer.Packed reader asked after := by
  induction numbers generalizing packing with
  | nil =>
    cases done
    exact packed
  | cons seq rest ih =>
    obtain ⟨here,later⟩ := forall_mem_cons.mp all
    unfold RtpsWriter.packAll at done
    split at done
    · exact ih packed later done
    · rename_i change found
      obtain ⟨_,first,others⟩ := bind_ok done
      exact ih (packed.packChange (here change found) first) later others

end

/-- What the datagrams for a reader hold. -/
theorem datagramsFor_carry (built : writer.datagramsFor numbers reader = .ok outbound) :
    ∀ out ∈ outbound, ∀ submessage ∈ out.message.submessages, writer.Carries reader
      (fun change => ∃ seq ∈ numbers, writer.cache.get seq = some change) submessage := by
  obtain ⟨_,packing,flushing⟩ := bind_ok built
  obtain ⟨_,flushed,same⟩ := bind_ok flushing
  cases same
  have start : writer.Packed reader
      (fun change => ∃ seq ∈ numbers, writer.cache.get seq = some change)
      ⟨[],writer.newBuilder reader.readerPrefix,none⟩ :=
    ⟨forall_mem_nil _,forall_mem_singleton.mpr .destination⟩
  exact ((start.packAll (fun seq mem _ found => ⟨seq,mem,found⟩) packing).flush flushed).1

end RtpsWriter

end Astrs.Rtps
