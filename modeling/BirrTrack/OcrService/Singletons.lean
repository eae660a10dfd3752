import BirrTrack.Foundation.DoubleChecked
import BirrTrack.OcrService.EngineStartup
import BirrTrack.Python.Values

/-! # The two models of the OCR service

`get_ocr_service` and `get_llm_service` create their instance on the first access that can. The
language model is loaded from a file and with a configuration that the environment names, as they
are at the time; a failed load leaves the next access to try again.
-/

namespace BirrTrack.OcrService

open Python DoubleChecked

/-! ## The configuration -/

/-- The environment variables. -/
abbrev Environ := String → Option (List Char)

def DEFAULT_MODEL_PATH : List Char := "models/mistral-7b-instruct.gguf".toList
def DEFAULT_CONTEXT_WINDOW : ℤ := 2048
def DEFAULT_CPU_THREADS : ℤ := 8
def DEFAULT_GPU_LAYERS : ℤ := 0
def DEFAULT_MAX_TOKENS : ℤ := 300
def DEFAULT_TEMPERATURE : Double := .of false (1 / 10)

structure LLMConfig where
  modelPath : List Char
  nCtx : ℤ
  nThreads : ℤ
  nGpuLayers : ℤ
  maxTokens : ℤ
  temperature : Double

/-- `_safe_int_env` -/
def safeIntEnv (environ : Environ) (name : String) (default : ℤ) : ℤ :=
  ((environ name).bind parseInt).getD default

/-- `_safe_float_env` -/
def safeFloatEnv (environ : Environ) (name : String) (default : Double) : Double :=
  ((environ name).bind Double.parse).getD default

def LLMConfig.fromEnv (environ : Environ) : LLMConfig where
  modelPath := (environ "LLM_MODEL_PATH").getD DEFAULT_MODEL_PATH
  nCtx := safeIntEnv environ "LLM_N_CTX" DEFAULT_CONTEXT_WINDOW
  nThreads := safeIntEnv environ "LLM_N_THREADS" DEFAULT_CPU_THREADS
  nGpuLayers := safeIntEnv environ "LLM_N_GPU_LAYERS" DEFAULT_GPU_LAYERS
  maxTokens := safeIntEnv environ "LLM_MAX_TOKENS" DEFAULT_MAX_TOKENS
  temperature := safeFloatEnv environ "LLM_TEMPERATURE" DEFAULT_TEMPERATURE

/-! ## The language model -/

section Loading

variable {Llama Raised : Type}

/-- What a thread sees while it loads the model: the environment, the file system and the
constructor of the library, with `model_path`, `n_ctx`, `n_threads` and `n_gpu_layers`. -/
structure Host (Llama Raised : Type) where
  environ : Environ
  isFile : List Char → Bool
  llama : List Char → ℤ → ℤ → ℤ → Except Raised Llama

structure LLMService (Llama : Type) where
  config : LLMConfig
  llm : Llama

inductive LoadFailure (Raised : Type) where
  | modelNotFound (message : List Char)
  | raised (exception : Raised)

/-- The creation of the service, under the lock of `get_llm_service`. -/
def loadLLMService (host : Host Llama Raised) : Except (LoadFailure Raised) (LLMService Llama) :=
  let config := LLMConfig.fromEnv host.environ
  if host.isFile config.modelPath then
    match host.llama config.modelPath config.nCtx config.nThreads config.nGpuLayers with
    | .ok llm => .ok ⟨config, llm⟩
    | .error exception => .error (.raised exception)
  else .error (.modelNotFound ("LLM model file not found: ".toList ++ config.modelPath ++
    ". Set LLM_MODEL_PATH or mount a .gguf into the container.".toList))

/-- The service is loaded from a file that is there, with the configuration of the time. -/
theorem loadLLMService_eq_ok {host : Host Llama Raised} {service : LLMService Llama}
    (loaded : loadLLMService host = .ok service) :
    service.config = LLMConfig.fromEnv host.environ ∧
      host.isFile service.config.modelPath = true ∧
      host.llama service.config.modelPath service.config.nCtx service.config.nThreads
        service.config.nGpuLayers = .ok service.llm := by
  simp only [loadLLMService] at loaded
  split at loaded
  next isFile =>
    split at loaded
    next llm made =>
      cases loaded
      exact ⟨rfl, isFile, made⟩
    next => cases loaded
  next => cases loaded

end Loading

/-! ## The accessors -/

section Accessors

variable (Thread Llama Raised Engine : Type) [DecidableEq Thread]

/-- `get_llm_service`, which reads the instance to return under the lock. -/
def getLLMService : EventMachine (State Thread (LLMService Llama) (LoadFailure Raised))
    (Access Thread (Host Llama Raised)) := shared true loadLLMService

/-- `get_ocr_service`, which reads it after the lock is released; the constructor of the engine
may behave differently each time. -/
def getOcrService : EventMachine (State Thread Engine InitFailure)
    (Access Thread (List (List Char × InitArg) → Except InitFailure Engine)) :=
  shared false fun paddle => ocrService paddle DEFAULT_LANGUAGE

end Accessors

section Runs

variable {Thread Llama Raised Engine : Type} [DecidableEq Thread]

/-- One service is loaded at most, from a model file that was there and with the configuration of
the environment at that time, and every call that returns, returns it. The calls never block each
other for good. -/
structure SingleLLMService (accesses : List (Access Thread (Host Llama Raised)))
    (state : State Thread (LLMService Llama) (LoadFailure Raised)) : Prop where
  once : CreatedOnce loadLLMService accesses state
  configured : ∀ service, state.cell = some service → ∃ loader host,
    .load loader host ∈ accesses ∧ service.config = LLMConfig.fromEnv host.environ ∧
      host.isFile service.config.modelPath = true
  progress : (∃ thread, state.phase thread ≠ .outside) → ∀ host, ∃ thread,
    ((getLLMService Thread Llama Raised).step state (.proceed thread)).isSome = true ∨
      ((getLLMService Thread Llama Raised).step state (.load thread host)).isSome = true

/-- However the calls of `get_llm_service` interleave, and whatever each load sees, they share one
service. -/
theorem getLLMService_run {state : State Thread (LLMService Llama) (LoadFailure Raised)}
    {accesses : List (Access Thread (Host Llama Raised))}
    (ran : (getLLMService Thread Llama Raised).run .initial accesses = some state) :
    SingleLLMService accesses state where
  once := shared_run ran
  configured service cell := by
    obtain ⟨loader, host, happened, loaded⟩ := (shared_run ran).loaded service cell
    obtain ⟨config, isFile, -⟩ := loadLLMService_eq_ok loaded
    exact ⟨loader, host, happened, config, isFile⟩
  progress := shared_progress ran

/-- The constructors that the loads call belong to versions of the library that know some of the
arguments. -/
def VersionsCheck (accesses : List (Access Thread (List (List Char × InitArg) →
    Except InitFailure Engine))) : Prop :=
  ∀ thread paddle, .load thread paddle ∈ accesses →
    ∃ supported construct, Checks supported construct paddle

/-- The engine is constructed from those of the four arguments that its version supports. -/
def FromSupported (accesses : List (Access Thread (List (List Char × InitArg) →
    Except InitFailure Engine))) (engine : Engine) : Prop :=
  ∃ loader paddle supported construct,
    .load loader paddle ∈ accesses ∧ Checks supported construct paddle ∧
      construct ((ocrInitArgs DEFAULT_LANGUAGE).filter fun arg => supported arg.1) = .ok engine

/-- The same of `get_ocr_service`. -/
structure SingleOcrService (accesses : List (Access Thread (List (List Char × InitArg) →
    Except InitFailure Engine))) (state : State Thread Engine InitFailure) : Prop where
  once : CreatedOnce (fun paddle => ocrService paddle DEFAULT_LANGUAGE) accesses state
  supported : VersionsCheck accesses →
    ∀ engine, state.cell = some engine → FromSupported accesses engine
  progress : (∃ thread, state.phase thread ≠ .outside) → ∀ paddle, ∃ thread,
    ((getOcrService Thread Engine).step state (.proceed thread)).isSome = true ∨
      ((getOcrService Thread Engine).step state (.load thread paddle)).isSome = true

/-- However the calls of `get_ocr_service` interleave, and whatever each construction comes to, they
share one engine. -/
theorem getOcrService_run {state : State Thread Engine InitFailure}
    {accesses : List (Access Thread (List (List Char × InitArg) → Except InitFailure Engine))}
    (ran : (getOcrService Thread Engine).run .initial accesses = some state) :
    SingleOcrService accesses state where
  once := shared_run ran
  supported versions engine cell := by
    obtain ⟨loader, paddle, happened, loaded⟩ := (shared_run ran).loaded engine cell
    obtain ⟨supported, construct, checks⟩ := versions loader paddle happened
    rw [ocrService_checks checks] at loaded
    exact ⟨loader, paddle, supported, construct, happened, checks, loaded⟩
  progress := shared_progress ran

end Runs

/-! ## Samples -/

/-- A host without settings, on which a model is a file or none is. -/
def sampleHost (present : Bool) : Host Unit Unit where
  environ _ := none
  isFile _ := present
  llama _ _ _ _ := .ok ()

/-- Two calls at once: the first thread finds no model, the second loads it, and the first calls
again. -/
def sampleAccesses {World : Type} (fails succeeds : World) : List (Access Bool World) :=
  [.call false, .call true, .proceed false, .proceed false, .load false fails, .proceed false,
    .proceed true, .proceed true, .load true succeeds, .proceed true, .proceed true, .call false,
    .proceed true, .proceed false]

theorem sampleAccesses_getLLMService :
    ∃ state, (getLLMService Bool Unit Unit).run .initial
        (sampleAccesses (sampleHost false) (sampleHost true)) = some state ∧
      SingleLLMService (sampleAccesses (sampleHost false) (sampleHost true)) state := by
  obtain ⟨state, ran⟩ := Option.isSome_iff_exists.mp (show ((getLLMService Bool Unit Unit).run
    .initial (sampleAccesses (sampleHost false) (sampleHost true))).isSome = true from rfl)
  exact ⟨state, ran, getLLMService_run ran⟩

/-- A version that knows every argument and finds no memory. -/
def noMemory (_args : List (List Char × InitArg)) :
    Except InitFailure (List (List Char × InitArg)) := .error .other

theorem noMemory_checks : Checks (fun _ => true) noMemory noMemory where
  rejects args unsupported := by
    obtain ⟨key, -, rejected⟩ := unsupported
    cases rejected
  accepts args known := by
    refine ⟨rfl, ?_⟩
    rintro key ⟨-, text, failed, -⟩
    cases failed

theorem sampleAccesses_getOcrService :
    ∃ state, (getOcrService Bool _).run .initial (sampleAccesses noMemory languageOnly) =
        some state ∧
      SingleOcrService (sampleAccesses noMemory languageOnly) state ∧
      ∀ engine, state.cell = some engine →
        FromSupported (sampleAccesses noMemory languageOnly) engine := by
  have enabled : ((getOcrService Bool _).run .initial
      (sampleAccesses noMemory languageOnly)).isSome = true := by
    have fails : ocrService noMemory DEFAULT_LANGUAGE = .error .other :=
      ocrService_checks noMemory_checks DEFAULT_LANGUAGE
    rw [getOcrService, shared, EventMachine.run_comap]
    simp only [sampleAccesses, List.map_cons, List.map_nil, Access.toEvent, fails,
      languageOnly_ocrService]
    rfl
  obtain ⟨state, ran⟩ := Option.isSome_iff_exists.mp enabled
  refine ⟨state, ran, getOcrService_run ran, (getOcrService_run ran).supported ?_⟩
  intro thread paddle happened
  simp only [sampleAccesses, List.mem_cons, reduceCtorEq, Access.load.injEq, List.not_mem_nil,
    false_or, or_false] at happened
  rcases happened with ⟨-, rfl⟩ | ⟨-, rfl⟩
  · exact ⟨_, _, noMemory_checks⟩
  · exact ⟨_, _, languageOnly_checks⟩

end BirrTrack.OcrService
