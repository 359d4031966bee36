import SelfDistillation.Library.Differencing
import SelfDistillation.Library.Stride
import SelfDistillation.Library.ExactNum
import SelfDistillation.Library.Packing
import SelfDistillation.Library.Transition
import SelfDistillation.Library.Ledger
import SelfDistillation.Python
import SelfDistillation.KarmarkarKarp
import SelfDistillation.DataProto
import SelfDistillation.DataProtoSchema
import SelfDistillation.DataProtoConcat
import SelfDistillation.DataProtoPadding
import SelfDistillation.SeqlenBalancing
import SelfDistillation.TokenBudget
import SelfDistillation.LossAggregation
import SelfDistillation.SelfDistillationLoss
import SelfDistillation.SelfDistillationBatch
import SelfDistillation.ForwardMicroBatch
import SelfDistillation.AutoPaddingDispatch
import SelfDistillation.NdDispatch
import SelfDistillation.ToolAgentLoop
import SelfDistillation.AgentLoopPostprocess
import SelfDistillation.PartialRollout
import SelfDistillation.SharedSamplingParams
import SelfDistillation.MessageQueue
import SelfDistillation.FullyAsync
import SelfDistillation.FullyAsyncStaleness
import SelfDistillation.EndOfStream
import SelfDistillation.ParameterVersions
import SelfDistillation.DataProtoUnion
import SelfDistillation.RemaxBaseline
import SelfDistillation.BalanceBatch
import SelfDistillation.LoadBalancer
import SelfDistillation.TensorDictPickle
import SelfDistillation.RewardLoop
import SelfDistillation.EngineForward
import SelfDistillation.BucketIpc
import SelfDistillation.ChainTransfer
import SelfDistillation.Ulysses
import SelfDistillation.FsdpModelMerger
import SelfDistillation.CheckpointManager
import SelfDistillation.CheckpointCrash
import SelfDistillation.CheckpointSavers
import SelfDistillation.ChatTemplate
import SelfDistillation.MultiturnSftDataset
import SelfDistillation.ActivationOffload
import SelfDistillation.ReplayPool
import SelfDistillation.GaeAdvantage
import SelfDistillation.MaskedLoss
import SelfDistillation.GradientAccumulation
import SelfDistillation.PartitionSpread
import SelfDistillation.GroupPartitions
import SelfDistillation.NoPadding
import SelfDistillation.EnvLoop
import SelfDistillation.PipelineShards
import SelfDistillation.UnfoldColumns
import SelfDistillation.RlooAdvantage
import SelfDistillation.GroupIndex
import SelfDistillation.GrpoAdvantage
import SelfDistillation.AsyncTokenBucket
import SelfDistillation.ToolAgentBudget
import SelfDistillation.OptimalTokenBaseline
import SelfDistillation.RolloutRejection
import SelfDistillation.ToolParser
import SelfDistillation.OneStepOff
import SelfDistillation.RolloutRequest
import SelfDistillation.ReinforcePlusPlus
import SelfDistillation.NaiveRouter
import SelfDistillation.ImageZoomIn
import SelfDistillation.Rlla
import SelfDistillation.SandboxFusion
import SelfDistillation.LayerOffset
import SelfDistillation.BoxedAnswer
import SelfDistillation.AnswerBlock
import SelfDistillation.PromptFilter
import SelfDistillation.PrefixGrouper
import SelfDistillation.ResourcePool
import SelfDistillation.NestedTensor
import SelfDistillation.TensorDictRows
import SelfDistillation.EntropyMainloop
import SelfDistillation.EntropyEpilogue
import SelfDistillation.FusedCrossEntropy
import SelfDistillation.Library.SoftmaxGradient
import SelfDistillation.FusedLinearForPpo
import SelfDistillation.Library.GridSwizzle
import SelfDistillation.EntropyBackward
import SelfDistillation.EntropyGradient
import SelfDistillation.VocabParallelEntropy
import SelfDistillation.Library.SliceAssign
import SelfDistillation.ContextParallel
import SelfDistillation.ThdNoPadding
import SelfDistillation.RouterReplay
import SelfDistillation.MegatronRoundTrip
