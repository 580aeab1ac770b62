import ProvenGraphcal.Constant.ConstantMeaning
import ProvenGraphcal.Eval.ExpectedFail
import ProvenGraphcal.Host.CallBoundary
import ProvenGraphcal.Instance.InstantiationRun
import ProvenGraphcal.Lowering.LexicalScoping
import ProvenGraphcal.Lsp.AnalysisSchedule
import ProvenGraphcal.Lsp.WorkspaceRevision
import ProvenGraphcal.MapLiteral.CoverageDecision
import ProvenGraphcal.MapLiteral.MapFill
import ProvenGraphcal.Nominal.Collection
import ProvenGraphcal.Nominal.KeyShift
import ProvenGraphcal.Nominal.NestedIncludes
import ProvenGraphcal.Package.Binding
import ProvenGraphcal.Package.GitUrlCanonical
import ProvenGraphcal.Plugin.ManifestRoundTrip
import ProvenGraphcal.Plugin.ReorderedManifest
import ProvenGraphcal.Protocol.ResultRoundTrip
import ProvenGraphcal.Reach.UnfinishedReach
import ProvenGraphcal.Registry.SharedStores
import ProvenGraphcal.Resolve.AliasSlots
import ProvenGraphcal.Resolve.Instances
import ProvenGraphcal.Resolve.PathTargets
import ProvenGraphcal.Schedule.RecurrenceRules
import ProvenGraphcal.Schedule.ScaleReads
import ProvenGraphcal.Schedule.ScheduleOutcome
import ProvenGraphcal.Signature.EquivalentCalls
import ProvenGraphcal.SourceTree.Remount
import ProvenGraphcal.Static.InstanceSubstitution
import ProvenGraphcal.Static.ProjectedDimension
import ProvenGraphcal.Static.RequiredInputs
import ProvenGraphcal.Syntax.MultiDeclCells
import ProvenGraphcal.Syntax.PositionAgreement
import ProvenGraphcal.Types.SubstitutionLaws
import ProvenGraphcal.ViewModel.KeyInjectivity
