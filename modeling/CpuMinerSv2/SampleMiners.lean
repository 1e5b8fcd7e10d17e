import CpuMinerSv2.MinerMethods
import CpuMinerSv2.SampleDeps

/-!
The sample channels under the calls of a channel miner: a refused call changes
nothing, an accepted one keeps what it has no business with, and validation
only records the number of an accepted share.
-/

namespace CpuMinerSv2.SampleMiners

open Messages Channels MineJob MinerMethods SampleDeps

/-- What an accepted call keeps. -/
structure Keeps {K : ClientChannel} (c : Call K) (a b : K.Channel) : Prop where
  lastSequenceNumber : K.getLastShareSequenceNumber b = K.getLastShareSequenceNumber a
  rollable : K.getRollableExtranonceSize b = K.getRollableExtranonceSize a
  activeJob : c.activating = false → K.getActiveJob b = K.getActiveJob a
  chainTip : c.activating = false → K.getChainTip b = K.getChainTip a
  size : (∀ p, c ≠ .setExtranoncePrefix p) → K.fullExtranonceSize b = K.fullExtranonceSize a

/-- What validating a share keeps. -/
structure KeepsAll {K : ClientChannel} (a b : K.Channel) : Prop where
  rollable : K.getRollableExtranonceSize b = K.getRollableExtranonceSize a
  activeJob : K.getActiveJob b = K.getActiveJob a
  futureJobs : K.getFutureJobs b = K.getFutureJobs a
  chainTip : K.getChainTip b = K.getChainTip a
  size : K.fullExtranonceSize b = K.fullExtranonceSize a

theorem storeJob_eq {Job : Type} (channel : SampleChannel Job) (jobId : UInt32) (active : Bool)
    (job : Job) : storeJob channel jobId active job = (.ok (), { channel with
      activeJob := if active then some job else channel.activeJob
      futureJobs :=
        if active then channel.futureJobs else (jobId, job) :: channel.futureJobs }) := by
  cases active <;> rfl

theorem standard_outcome (c : Call (standardClient sampleDeps))
    (channel : SampleChannel SampleStandardJob) :
    (∃ e, c.outcome channel = (.error e, channel)) ∨
      ∃ channel', c.outcome channel = (.ok (), channel') ∧ Keeps c channel channel' := by
  cases c with
  | setExtranoncePrefix p =>
    rcases replacePrefix_cases channel p with h | h
    · exact .inr ⟨_, h, rfl, rfl, fun _ => rfl, fun _ => rfl, fun hne => absurd rfl (hne p)⟩
    · exact .inl h
  | job message =>
    cases message with
    | newMiningJob m =>
      refine .inr ⟨_, storeJob_eq channel _ _ _, rfl, rfl, ?_, fun _ => rfl, fun _ => rfl⟩
      intro hc
      exact if_neg (Bool.eq_false_iff.mp hc)
    | groupChannelJob m =>
      rcases groupJob_cases channel m with ⟨job, _, h⟩ | h
      · refine .inr
          ⟨_, h.trans (storeJob_eq channel _ _ _), rfl, rfl, ?_, fun _ => rfl, fun _ => rfl⟩
        intro hc
        exact if_neg (Bool.eq_false_iff.mp hc)
      · exact .inl h
  | setNewPrevHash m =>
    rcases activateJob_cases SampleStandardJob.withMinNtime channel m with ⟨_, _, h⟩ | h
    · exact .inr ⟨_, h, rfl, rfl, (fun hc => nomatch hc), (fun hc => nomatch hc), fun _ => rfl⟩
    · exact .inl h
  | _ => exact .inr ⟨_, rfl, ⟨rfl, rfl, fun _ => rfl, fun _ => rfl, fun _ => rfl⟩⟩

theorem extended_outcome (c : Call (extendedClient sampleDeps))
    (channel : SampleChannel SampleExtendedJob) :
    (∃ e, c.outcome channel = (.error e, channel)) ∨
      ∃ channel', c.outcome channel = (.ok (), channel') ∧ Keeps c channel channel' := by
  cases c with
  | setExtranoncePrefix p =>
    rcases replacePrefix_cases channel p with h | h
    · exact .inr ⟨_, h, rfl, rfl, fun _ => rfl, fun _ => rfl, fun hne => absurd rfl (hne p)⟩
    · exact .inl h
  | job message =>
    refine .inr ⟨_, storeJob_eq channel _ _ _, rfl, rfl, ?_, fun _ => rfl, fun _ => rfl⟩
    intro hc
    exact if_neg (Bool.eq_false_iff.mp hc)
  | setNewPrevHash m =>
    rcases activateJob_cases SampleExtendedJob.withMinNtime channel m with ⟨_, _, h⟩ | h
    · exact .inr ⟨_, h, rfl, rfl, (fun hc => nomatch hc), (fun hc => nomatch hc), fun _ => rfl⟩
    · exact .inl h
  | _ => exact .inr ⟨_, rfl, ⟨rfl, rfl, fun _ => rfl, fun _ => rfl, fun _ => rfl⟩⟩

/-- Every call on a sample channel is refused and changes nothing, or keeps
what it has no business with. -/
theorem sample_outcome (kind : Kind) (c : Call (sampleDeps.client kind))
    (channel : (sampleDeps.client kind).Channel) :
    (∃ e, c.outcome channel = (.error e, channel)) ∨
      ∃ channel', c.outcome channel = (.ok (), channel') ∧ Keeps c channel channel' := by
  cases kind with
  | standard => exact standard_outcome c channel
  | extended => exact extended_outcome c channel

theorem sample_validate (kind : Kind) (channel : (sampleDeps.client kind).Channel)
    (share : (sampleDeps.client kind).Share) :
    (∃ e, (sampleDeps.client kind).validateShare channel share = (.error e, channel)) ∨
      ∃ channel', (sampleDeps.client kind).validateShare channel share = (.ok .valid, channel') ∧
        (sampleDeps.client kind).getLastShareSequenceNumber channel' =
          (sampleDeps.client kind).sequenceNumber share ∧ KeepsAll channel channel' := by
  cases kind with
  | standard =>
    rcases validate_cases _ _ _ channel share.jobId share.sequenceNumber with h | h
    · exact .inr ⟨_, h, rfl, rfl, rfl, rfl, rfl, rfl⟩
    · exact .inl h
  | extended =>
    rcases validate_cases _ _ _ channel share.jobId share.sequenceNumber with h | h
    · exact .inr ⟨_, h, rfl, rfl, rfl, rfl, rfl, rfl⟩
    · exact .inl h

/-- A channel just opened, with a target that every nonce meets. -/
def sampleChannel (Job : Type) : SampleChannel Job where
  channelId := 1
  extranoncePrefix := ⟨[1, 2]⟩
  rollableExtranonceSize := 0
  target := 4294967295
  chainTip := none
  activeJob := none
  futureJobs := []
  lastShareSequenceNumber := 0
  acknowledgedShares := 0
  acknowledgedWorkSum := 0
  rejectedShares := 0

/-- A standard miner on that channel at the start of the clock. -/
def sampleRig (singleSubmit : Bool) : Rig (sampleDeps.client .standard) :=
  ⟨⟨0, false⟩, new (K := standardClient sampleDeps) (sampleChannel SampleStandardJob) 100
    singleSubmit⟩

def sampleJob (jobId : UInt32) (minNtime : Option UInt32) : Call (sampleDeps.client .standard) :=
  .job (StandardJobMessage.newMiningJob
    { channelId := 1, jobId, minNtime, version := 2, merkleRoot := [7] })

def samplePrevHash (jobId : UInt32) : Call (sampleDeps.client .standard) :=
  .setNewPrevHash { channelId := 1, jobId, prevHash := [9], minNtime := 50, nbits := 3 }

/-- A task goes on for a number of steps. -/
def goOn (i steps : ℕ) : List (Label (sampleDeps.client .standard)) :=
  List.replicate steps (.event (.task i .next))

end CpuMinerSv2.SampleMiners
