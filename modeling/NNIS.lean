import NNIS.Semantics.Fallible
import NNIS.Semantics.Checked
import NNIS.Numeric.Binary
import NNIS.Decoding.Greedy
import NNIS.Decoding.Incremental
import NNIS.Memory.Region
import NNIS.Rt.Driver
import NNIS.Rt.KvCache
import NNIS.Rt.KvCacheRows
import NNIS.Rt.KvCompaction
import NNIS.Model.Pipeline
import NNIS.Model.Session
import NNIS.Model.Runtime
import NNIS.Model.F16ReferenceRuntime
import NNIS.Core.SpeculativeVerify
import NNIS.Cpu.Speculative
import NNIS.Model.SessionTokens
import NNIS.Model.SessionDecode
import NNIS.Model.SessionVerify
import NNIS.Model.SessionRuns
import NNIS.Semantics.Pairs
import NNIS.Model.SessionAlike
import NNIS.Model.SessionFailure
import NNIS.Model.SessionLossless
import NNIS.Model.SessionCompaction
import NNIS.Core.Portable
import NNIS.Dataflow.StraightLine
import NNIS.Core.Graph
import NNIS.Core.GraphAdmission
import NNIS.Numeric.Bytes
import NNIS.Cpu.Device
import NNIS.Cpu.Numerical
import NNIS.Cpu.NumericalSpec
import NNIS.Cpu.Graph
import NNIS.Cpu.GraphExecution
import NNIS.Core.KvFp4
import NNIS.Cpu.Fp4Kv
import NNIS.Cpu.Fp4KvRoundTrip
import NNIS.Core.Dsv41Campaign
import NNIS.Core.Dsv41CampaignGrid
import NNIS.Model.ExecutionTransition
import NNIS.Model.ExecutionTransitionProtocol
import NNIS.Core.KvReusePlan
import NNIS.Core.ReplayState
import NNIS.Cpu.Replay
import NNIS.Cpu.KvReuse
import NNIS.Rt.KvCacheDevice
import NNIS.Rt.KvCacheLogs
import NNIS.Rt.KvCacheRefinement
import NNIS.Rt.KvLayerCompaction
import NNIS.Codec.SelfDelimiting
import NNIS.Core.Sha256
import NNIS.Core.KernelArtifact
import NNIS.Core.KernelArtifactDescriptor
import NNIS.Core.AdapterEvidence
import NNIS.Core.EvidenceVerdict
import NNIS.Core.Json
import NNIS.Core.JsonGrammar
import NNIS.Core.JsonLexemes
import NNIS.Core.JsonStrings
import NNIS.Core.JsonMeaning
import NNIS.Core.JsonParse
import NNIS.Core.JsonWrite
import NNIS.Core.JsonObject
import NNIS.Core.EvidenceJson
import NNIS.Core.JsonShape
import NNIS.Core.EvidenceRoundTrip
import NNIS.Core.JsonSchema
import NNIS.Core.Dsv41CampaignJson
import NNIS.Core.Dsv41CampaignRoundTrip
import NNIS.Core.Dsv41CampaignSchema
import NNIS.Core.Pvp
import NNIS.Numeric.SubsetZeta
import NNIS.Core.PvpProjection
import NNIS.Core.PvpZeta
import NNIS.Cpu.Pvp
import NNIS.Wgpu.Pvp
import NNIS.Wgpu.PvpAgreement
import NNIS.Wgpu.Fp4
import NNIS.Wgpu.Fp4Agreement
import NNIS.Wgpu.Memory
import NNIS.Wgpu.MemoryRefinement
import NNIS.Wgpu.Speculative
import NNIS.Wgpu.SpeculativeAgreement
import NNIS.Sequence.FirstOccurrences
import NNIS.Memory.Lane
import NNIS.Numeric.Bounds
import NNIS.Model.ReconstructionError
import NNIS.Model.Int2Reference
import NNIS.Model.SparseReference
import NNIS.Model.Weights
import NNIS.Numeric.Quotient
import NNIS.Cpu.Fp4Scale
import NNIS.Cpu.Fp4Quantize
import NNIS.Numeric.Nearest
import NNIS.Cpu.Fp4Error
import NNIS.Cpu.Fp4E8m0
import NNIS.Core.PortableSession
import NNIS.Cpu.KvFp4Shadow
import NNIS.Parallel.Footprint
import NNIS.Parallel.Schedule
import NNIS.Kernels.FusedAttention
import NNIS.Kernels.FusedAttentionPlan
import NNIS.Kernels.FusedAttentionSchedule
import NNIS.Cpu.SpeculativeRows
import NNIS.Hash.Fips180
import NNIS.Core.Sha256Standard
import NNIS.Cpu.NumericalInPlace
import NNIS.Wgpu.Replay
import NNIS.Wgpu.ReplayAgreement
import NNIS.Model.Int4Reference
import NNIS.Model.CanonicalBytes
import NNIS.Model.SparseCscReference
import NNIS.Model.SparseCscRoundTrip
import NNIS.Model.Sampling
import NNIS.Model.SamplingSpec
import NNIS.Model.SampledGeneration
import NNIS.Kernels.TopK
import NNIS.Model.F16GenerationProfile
import NNIS.Model.GenerationSpec
import NNIS.Model.GenerationAgreement
import NNIS.Memory.Transposed
import NNIS.Model.SafetensorsLoader
import NNIS.Model.TiedHead
import NNIS.Model.RepresentationAccounting
import NNIS.Core.PortableKvHistory
import NNIS.Core.SpeculativeAccounting
import NNIS.Model.F16MaterializationMemory
import NNIS.Model.TeacherForcing
import NNIS.Cli.KvlabEvaluation
import NNIS.Parallel.ReductionTree
import NNIS.Parallel.TreePasses
import NNIS.Kernels.Reduction
import NNIS.Kernels.ReductionSpec
import NNIS.Kernels.TopKSelectionSpec
import NNIS.Kernels.Gemm
import NNIS.Kernels.GemmBlock
import NNIS.Kernels.GemmSpec
import NNIS.Model.ReferenceLoop
import NNIS.Numeric.Integers
import NNIS.Model.Int4Quantizer
import NNIS.Model.ReferenceAccuracy
import NNIS.Parallel.Progress
import NNIS.Parallel.BlockReduce
import NNIS.Kernels.RowWise
import NNIS.Kernels.RowWisePlan
import NNIS.Kernels.RowWiseBlock
import NNIS.Kernels.RowWiseSpec
import NNIS.Kernels.FusedAttentionRegions
import NNIS.Kernels.PairScan
import NNIS.Kernels.SharedMemory
import NNIS.Cpu.Session
import NNIS.Cpu.NumericalExact
import NNIS.Cpu.SyntheticModel
import NNIS.Cpu.SyntheticShadow
import NNIS.Cpu.TokenHistory
import NNIS.Cpu.SessionHistory
import NNIS.Cpu.SessionRuns
import NNIS.Parallel.StreamOrder
import NNIS.Rt.Pool
import NNIS.Rt.PoolOrder
import NNIS.Rt.PoolRuns
import NNIS.Cpu.SessionGraph
